import WhisprMedia.DedupEntries
import WhisprMedia.Ownership
import WhisprMedia.Slots

/-! Requests of one user leave what belongs to the others as it is, whatever the dependencies
answer. Ids that are drawn for a request tell whose rows and objects they name. -/
namespace WhisprMedia
open Awaiting MediaService

abbrev ApiPool := Pool Cmd Cmd.Reply World Task (Except Err Reply)
abbrev ApiThread := Thread Cmd Cmd.Reply Task (Except Err Reply)

/-! Users -/

/-- Two texts that mean one user. -/
def SameUser (env : Env) (a b : String) : Prop :=
  a = b ∨ ∃ u, env.uuidIn a = some u ∧ env.uuidIn b = some u

section Users
variable {env : Env} {a b c : String}

theorem SameUser.symm (h : SameUser env a b) : SameUser env b a := by
  rcases h with rfl | ⟨u, ha, hb⟩
  · exact Or.inl rfl
  · exact Or.inr ⟨u, hb, ha⟩

theorem SameUser.trans (h : SameUser env a b) (h' : SameUser env b c) : SameUser env a c := by
  rcases h with rfl | ⟨u, ha, hb⟩
  · exact h'
  · rcases h' with rfl | ⟨u', hb', hc⟩
    · exact Or.inr ⟨u, ha, hb⟩
    · obtain rfl := Option.some.inj (hb.symm.trans hb')
      exact Or.inr ⟨u, ha, hc⟩

/-- A text and the form in which Postgres stores it. -/
theorem sameUser_of_uuidIn (h : env.uuidIn a = some b) : SameUser env a b :=
  Or.inr ⟨b, h, env.uuidIn_canonical a b h⟩

end Users

/-! What a command of one user leaves to another -/

/-- The rows, the dedup entries, the quota row and the counter of the user are the same. -/
structure StoresKept (env : Env) (v : String) (w w' : World) : Prop where
  rows : ∀ m : Media, env.uuidIn v = some m.ownerId → (m ∈ w'.media.rows ↔ m ∈ w.media.rows)
  dedup : ∀ context digest,
    w'.dedupCache (dedupKey v context digest) = w.dedupCache (dedupKey v context digest)
  quota : ∀ u, env.uuidIn v = some u → w'.quotas.get u = w.quotas.get u
  semaphore : w'.semaphores (semaphoreKey v) = w.semaphores (semaphoreKey v)

section Frames
variable {env : Env} {r v : String} {log : ServiceLog} {c : Cmd} {w w' w'' : World}

theorem StoresKept.refl (env : Env) (v : String) (w : World) : StoresKept env v w w :=
  ⟨fun _ _ => Iff.rfl, fun _ _ => rfl, fun _ _ => rfl, rfl⟩

theorem StoresKept.trans (h : StoresKept env v w w') (h' : StoresKept env v w' w'') :
    StoresKept env v w w'' where
  rows m hm := (h'.rows m hm).trans (h.rows m hm)
  dedup context digest := (h'.dedup context digest).trans (h.dedup context digest)
  quota u hu := (h'.quota u hu).trans (h.quota u hu)
  semaphore := h'.semaphore.trans h.semaphore

/-- The uuids of two users differ. -/
theorem uuid_ne {u u' : String} (hv : ¬ SameUser env r v) (hr : env.uuidIn r = some u)
    (hu : env.uuidIn v = some u') : u' ≠ u := by
  rintro rfl
  exact hv (Or.inr ⟨_, hr, hu⟩)

theorem rows_exec (hc : Own r log c) (hv : ¬ SameUser env r v) {m : Media}
    (hm : env.uuidIn v = some m.ownerId) :
    m ∈ (env.exec c w).2.media.rows ↔ m ∈ w.media.rows := by
  have hmem (t : Keyed.Table Media.id) : m ∈ t.rows ↔ t.get m.id = some m := by
    rw [Keyed.Table.get_some, and_iff_left rfl]
  rw [hmem, hmem]
  generalize hr : (env.exec c w).2.media.get m.id = r'
  cases media_step hr with
  | kept same => rw [same]
  | inserted cmd ok stored owner fresh =>
    subst cmd
    obtain ⟨rfl, -⟩ := hc
    have hne := uuid_ne hv owner hm
    exact iff_of_false (fun h => hne (by rw [Option.some.inj h])) fun h =>
      absurd (h.symm.trans fresh) (by simp)
  | shared cmd old owner | removed cmd old owner | signed cmd old owner =>
    subst cmd
    obtain rfl : _ = r := hc
    have hne := uuid_ne hv owner hm
    exact iff_of_false (fun h => hne (by rw [← Option.some.inj h])) fun h =>
      hne (by rw [Option.some.inj (h.symm.trans old)])

theorem dedup_exec (hc : Own r log c) (hv : ¬ SameUser env r v) (context : MediaContext)
    (digest : List (Fin 16)) : (env.exec c w).2.dedupCache (dedupKey v context digest) =
      w.dedupCache (dedupKey v context digest) := by
  by_cases hf : c.family = .dedup
  · cases c <;> simp only [Cmd.family, reduceCtorEq] at hf
    case getDedup => rfl
    case setDedup key id ttl =>
      obtain ⟨context', digest', rfl⟩ := hc
      refine Function.update_of_ne (fun h => hv (Or.inl ?_)) _ _
      exact (dedupKey_ownerId h).symm
  · rw [exec_dedupCache hf]

theorem quota_exec_other (hc : Own r log c) (hv : ¬ SameUser env r v) {u : String}
    (hu : env.uuidIn v = some u) : (env.exec c w).2.quotas.get u = w.quotas.get u := by
  generalize hr : (env.exec c w).2.quotas.get u = r'
  cases quota_step hr with
  | kept same => exact same.symm
  | inserted cmd user | charged cmd user | released cmd user =>
    subst cmd
    obtain rfl : _ = r := hc
    exact absurd (Or.inr ⟨u, user, hu⟩) hv
  | reset cmd =>
    subst cmd
    exact hc.elim

theorem semaphore_exec (hc : Own r log c) (hv : ¬ SameUser env r v) :
    (env.exec c w).2.semaphores (semaphoreKey v) = w.semaphores (semaphoreKey v) := by
  have hkey : semaphoreKey v ≠ semaphoreKey r :=
    fun h => hv (Or.inl (semaphoreKey_injective h).symm)
  by_cases hf : c.family = .semaphore
  · cases c <;> simp only [Cmd.family, reduceCtorEq] at hf
    all_goals
      obtain rfl : _ = semaphoreKey r := hc
      exact Function.update_of_ne hkey _ _
  · rw [exec_semaphores hf]

/-- A command of one user leaves the stores of the others. -/
theorem storesKept_exec (hc : Own r log c) (hv : ¬ SameUser env r v) :
    StoresKept env v w (env.exec c w).2 :=
  ⟨fun _ hm => rows_exec hc hv hm, fun context digest => dedup_exec hc hv context digest,
    fun _ hu => quota_exec_other hc hv hu, semaphore_exec hc hv⟩

end Frames

/-! Whose request drew an id -/

def Task.user? : Task → Option String
  | .request req => some req.authenticatedUserId
  | .call x => x.user?

/-- A request for the user drew the id. -/
def DrawnFor (env : Env) (p : ApiPool) (id v : String) : Prop :=
  ∃ (i : ℕ) (t : ApiThread) (r : String),
    p.threads[i]? = some t ∧ t.call.user? = some r ∧ SameUser env r v ∧ Drew t.log id

/-- A row names its owner's id, and its keys are built for this id. -/
def Media.Placed (env : Env) (p : ApiPool) (m : Media) : Prop :=
  DrawnFor env p m.id m.ownerId ∧ ∀ path, m.RefersTo path → PathOf m.id path

/-- What ties ids, rows and logs together in a reachable pool. -/
structure Owned (env : Env) (p : ApiPool) : Prop where
  drawn : ∀ (i : ℕ) (t : ApiThread) id, p.threads[i]? = some t → Drew t.log id →
    ∃ n < p.world.drawn, id = env.randomUUID n
  apart : ∀ (i j : ℕ) (t t' : ApiThread) id, p.threads[i]? = some t → p.threads[j]? = some t' → Drew t.log id →
    Drew t'.log id → i = j
  rows : ∀ m ∈ p.world.media.rows, m.Placed env p
  found : ∀ t ∈ p.threads, ∀ m, Found t.log m → m.Placed env p
  puts : ∀ t ∈ p.threads, ∀ key object a,
    (⟨.putObject key object, a⟩ : Event Cmd Cmd.Reply) ∈ t.log →
      ∃ id, Drew t.log id ∧ PathOf id key

section Draws
variable {env : Env} {p q : ApiPool} {id v v' : String}

theorem DrawnFor.unique (hp : Owned env p) (h : DrawnFor env p id v) (h' : DrawnFor env p id v') :
    SameUser env v v' := by
  obtain ⟨i, t, r, hi, hr, hv, hd⟩ := h
  obtain ⟨i', t', r', hi', hr', hv', hd'⟩ := h'
  obtain rfl := hp.apart i i' t t' id hi hi' hd hd'
  obtain rfl := Option.some.inj (hi.symm.trans hi')
  obtain rfl := Option.some.inj (hr.symm.trans hr')
  exact hv.symm.trans hv'

theorem DrawnFor.runs {fault : Cmd → World → Option Fault}
    {ok : ApiPool → Label Task Act → Prop} (h : DrawnFor env p id v)
    (hr : (api env fault).Runs ok p q) : DrawnFor env q id v := by
  obtain ⟨i, t, r, hi, hu, hv, hd⟩ := h
  obtain ⟨t', hi', hcall, hlog⟩ := hr.thread hi
  exact ⟨i, t', r, hi', by rw [hcall, hu], hv, hlog.subset hd⟩

end Draws

/-! Commands of the threads -/

theorem route_user {req : Request} {x : Call} (h : MediaController.route req = .ok x) :
    x.user? = some req.authenticatedUserId := by
  obtain ⟨userId, endpoint⟩ := req
  cases endpoint <;> simp only [MediaController.route] at h
  case upload dto =>
    unfold MediaController.upload at h
    split at h
    · exact absurd h (by simp)
    · obtain ⟨_, -, h⟩ := bind_eq_ok h
      obtain ⟨_, howner, h⟩ := bind_eq_ok h
      obtain ⟨_, -, h⟩ := bind_eq_ok h
      obtain ⟨_, -, h⟩ := bind_eq_ok h
      obtain rfl := Except.ok.inj h
      have heq := throwIf_eq_ok.mp howner
      simpa [Call.user?] using heq
  case getMyMedia => obtain rfl := Except.ok.inj h; rfl
  case getQuota => obtain rfl := Except.ok.inj h; rfl
  all_goals
    obtain ⟨_, -, h⟩ := bind_eq_ok h
    obtain rfl := Except.ok.inj h
    first
      | rfl
      | split <;> rfl

/-- A command that a thread may issue: one of its user, or one of the nightly reset. -/
def Issuable (t : Task) (log : ServiceLog) (c : Cmd) : Prop :=
  (∃ r, t.user? = some r ∧ Own r log c) ∨
    (t.user? = none ∧ (c.family = .quotaReset ∨ c.family = .quotaCache))

theorem body_issuable (env : Env) (fault : Cmd → World → Option Fault) (t : Task) :
    ((api env fault).body t).IssuesAfter (Issuable t) [] := by
  have hlift {r : String} {x : Svc Reply} (hr : t.user? = some r) (hx : Owns r [] x) :
      x.run.IssuesAfter (Issuable t) [] := hx.mono fun log c hc => Or.inl ⟨r, hr, hc⟩
  cases t with
  | request req =>
    refine hlift rfl (x := MediaController.handle env req) (owns_sync_bind fun x hx => ?_)
    exact (handle_owns env (route_user hx) []).bind fun _ _ _ => trivial
  | call x =>
    cases hx : x.user? with
    | some r => exact hlift hx (handle_owns env hx [])
    | none =>
      cases x <;> simp only [Call.user?, reduceCtorEq] at hx
      refine Prog.Issues.after (QuotaService.resetDailyUploads_touches.map (f := fun _ =>
        Reply.done)).issues fun log c hc => Or.inr ⟨rfl, ?_⟩
      simpa using hc

/-! Steps -/

section Steps
variable {env : Env} {fault : Cmd → World → Option Fault} {p q : ApiPool} {l : Label Task Act}

theorem execFaulty_world (c : Cmd) (w : World) : (env.execFaulty fault c w).2 = w ∨
    (env.execFaulty fault c w).2 = (env.exec c w).2 := by
  unfold Env.execFaulty
  split
  · exact Or.inr rfl
  · next f _ => cases f.applied <;> simp

/-- A command that is answered with a value has not failed. -/
theorem execFaulty_ok {c : Cmd} {w : World} {v : c.Value}
    (h : (env.execFaulty fault c w).1 = .ok v) :
    env.execFaulty fault c w = env.exec c w := by
  unfold Env.execFaulty at h ⊢
  split
  · rfl
  · next f hf =>
    rw [hf] at h
    exact absurd h (by simp)

theorem drawn_le_next (h : (api env fault).next p l = some q) :
    p.world.drawn ≤ q.world.drawn := by
  rcases System.next_cases h with ⟨x, -, rfl⟩ | ⟨a, -, rfl⟩ |
    ⟨i, pre, post, x, log, c, k, -, hts, -, rfl⟩
  · exact Nat.le_refl _
  · exact (act_drawn a p.world).ge
  · show p.world.drawn ≤ (env.execFaulty fault c p.world).2.drawn
    rcases @execFaulty_world env fault c p.world with h | h
    · rw [h]
    · rw [h]
      exact drawn_le_exec

/-- An id in a log was there before, or this step has drawn it. -/
theorem drew_next (h : (api env fault).next p l = some q) {i : ℕ} {t' : ApiThread} {id : String}
    (ht' : q.threads[i]? = some t') (hd : Drew t'.log id) :
    (∃ t, p.threads[i]? = some t ∧ t.call = t'.call ∧ Drew t.log id) ∨
      (l = .step i ∧ id = env.randomUUID p.world.drawn ∧
        q.world.drawn = p.world.drawn + 1) := by
  rcases System.next_thread h ht' with hlog | ⟨t, ht, hcall, hlog | ⟨c, k, rfl, -, hlog, hw⟩⟩
  · rw [hlog] at hd
    exact absurd hd (by simp [Drew])
  · exact Or.inl ⟨t, ht, hcall, hlog ▸ hd⟩
  · rw [hlog] at hd
    rcases List.mem_append.mp hd with hd | hd
    · exact Or.inl ⟨t, ht, hcall, hd⟩
    · obtain ⟨rfl, ha⟩ := Sigma.mk.inj (List.mem_singleton.mp hd)
      have hok := execFaulty_ok (eq_of_heq ha).symm
      have hid : Except.ok id = (env.exec .randomUUID p.world).1 := by
        rw [← hok]
        exact eq_of_heq ha
      refine Or.inr ⟨rfl, Except.ok.inj hid, ?_⟩
      rw [hw]
      exact congrArg (fun o => o.2.drawn) hok

/-- A row in a log was found before, or this step has found it in the table. -/
theorem found_next (h : (api env fault).next p l = some q) {t' : ApiThread} {m : Media}
    (ht' : t' ∈ q.threads) (hf : Found t'.log m) :
    (∃ t ∈ p.threads, Found t.log m) ∨ m ∈ p.world.media.rows := by
  obtain ⟨i, ht'⟩ := List.getElem?_of_mem ht'
  obtain ⟨user, id, hmem⟩ := hf
  rcases System.next_thread h ht' with hlog | ⟨t, ht, -, hlog | ⟨c, k, rfl, -, hlog, -⟩⟩
  · rw [hlog] at hmem
    exact absurd hmem List.not_mem_nil
  · exact Or.inl ⟨t, List.mem_of_getElem? ht, user, id, hlog ▸ hmem⟩
  · rw [hlog] at hmem
    rcases List.mem_append.mp hmem with hmem | hmem
    · exact Or.inl ⟨t, List.mem_of_getElem? ht, user, id, hmem⟩
    · obtain ⟨rfl, ha⟩ := Sigma.mk.inj (List.mem_singleton.mp hmem)
      have hok := execFaulty_ok (eq_of_heq ha).symm
      have hr : (env.exec (.findMedia user id) p.world).1 = .ok (some m) := by
        rw [← hok]
        exact (eq_of_heq ha).symm
      obtain ⟨-, u, -, -, hget, -⟩ := exec_findMedia (Prod.mk.eta).symm hr
      exact Or.inr (Keyed.Table.get_some.mp hget).1

/-- A row of the table was there before, and this step may have changed it, or this step has
inserted it for the user of a thread. -/
theorem row_next (h : (api env fault).next p l = some q) {m' : Media}
    (hm' : m' ∈ q.world.media.rows) :
    (∃ m ∈ p.world.media.rows, m.Becomes m') ∨
      ∃ i t c k user media, l = .step i ∧ p.threads[i]? = some t ∧ t.rest = .step c k ∧
        c = .saveMedia user media ∧ env.mediaIn p.world.now media = some m' ∧
        env.uuidIn user = some m'.ownerId := by
  have hsame (hm : m' ∈ p.world.media.rows) : ∃ m ∈ p.world.media.rows, m.Becomes m' :=
    ⟨m', hm, Media.Becomes.refl m'⟩
  rcases System.next_cases h with ⟨x, -, rfl⟩ | ⟨a, -, rfl⟩ |
    ⟨i, pre, post, x, log, c, k, rfl, hts, rfl, rfl⟩
  · exact Or.inl (hsame hm')
  · have hmedia : (a.apply p.world).media = p.world.media := act_media a p.world
    exact Or.inl (hsame (hmedia ▸ hm'))
  · have hm : m' ∈ (env.execFaulty fault c p.world).2.media.rows := hm'
    rcases @execFaulty_world env fault c p.world with he | he
    · exact Or.inl (hsame (he ▸ hm))
    · rw [he] at hm
      rcases media_before_exec (Keyed.Table.get_key hm) with ⟨m, hget, hb⟩ |
        ⟨user, media, rfl, -, hin, ho, -⟩
      · exact Or.inl ⟨m, (Keyed.Table.get_some.mp hget).1, hb⟩
      · exact Or.inr ⟨pre.length, ⟨x, log, _⟩, _, k, user, media, rfl, by simp [hts], rfl, rfl,
          hin, ho⟩

theorem Media.Placed.next {m : Media} (hm : m.Placed env p)
    (h : (api env fault).next p l = some q) : m.Placed env q :=
  have hstep : (api env fault).Runs (fun _ _ => True) p q := .tail (.refl p) trivial h
  ⟨hm.1.runs hstep, hm.2⟩

theorem Media.Placed.becomes {m m' : Media} (hm : m.Placed env p) (hb : m.Becomes m') :
    m'.Placed env p := by
  constructor
  · rw [hb.id_eq, hb.ownerId_eq]
    exact hm.1
  · intro path hpath
    rw [hb.id_eq]
    refine hm.2 path ?_
    unfold Media.RefersTo at hpath
    rwa [hb.storagePath_eq, hb.thumbnailPath_eq] at hpath

/-- Every thread goes on with commands that are its user's. -/
def AllIssuable (p : ApiPool) : Prop :=
  ∀ t ∈ p.threads, t.rest.IssuesAfter (Issuable t.call) t.log

theorem issuable_runs {ok : ApiPool → Label Task Act → Prop} {w : World}
    (h : (api env fault).Runs ok ⟨w, []⟩ p) : AllIssuable p := by
  intro t ht
  have hf := h.follows (fun t ht => absurd ht List.not_mem_nil) t ht
  simpa using (body_issuable env fault t.call).of_follows hf

theorem Owned.step (hp : Owned env p) (hi : AllIssuable p)
    (hu : env.DrawsApart q.world.drawn)
    (h : (api env fault).next p l = some q) : Owned env q where
  drawn i t' id ht' hd := by
    rcases drew_next h ht' hd with ⟨t, ht, -, hd⟩ | ⟨-, rfl, hw⟩
    · obtain ⟨n, hn, rfl⟩ := hp.drawn i t id ht hd
      exact ⟨n, Nat.lt_of_lt_of_le hn (drawn_le_next h), rfl⟩
    · exact ⟨p.world.drawn, by omega, rfl⟩
  apart i j t' s' id ht' hs' hd hd' := by
    -- an id that was drawn before is not the one that is drawn now
    have hnew {i : ℕ} {t : ApiThread} (ht : p.threads[i]? = some t)
        (hd : Drew t.log (env.randomUUID p.world.drawn))
        (hw : q.world.drawn = p.world.drawn + 1) : False := by
      obtain ⟨n, hn, he⟩ := hp.drawn i t _ ht hd
      have := hu _ _ (by omega) (by omega) he
      omega
    rcases drew_next h ht' hd with ⟨t, ht, -, hd⟩ | ⟨hl, rfl, hw⟩
    · rcases drew_next h hs' hd' with ⟨s, hs, -, hd'⟩ | ⟨-, rfl, hw⟩
      · exact hp.apart i j t s id ht hs hd hd'
      · exact (hnew ht hd hw).elim
    · rcases drew_next h hs' hd' with ⟨s, hs, -, hd'⟩ | ⟨hl', -, -⟩
      · exact (hnew hs hd' hw).elim
      · exact Label.step.inj (hl.symm.trans hl')
  rows m' hm' := by
    rcases row_next h hm' with ⟨m, hm, hb⟩ |
      ⟨i, t, c, k, user, media, rfl, ht, hrest, rfl, hin, ho⟩
    · exact ((hp.rows m hm).becomes hb).next h
    · have hc := hi t (List.mem_of_getElem? ht)
      rw [hrest] at hc
      rcases hc.1 with ⟨r, hr, rfl, hd, hpath⟩ | ⟨-, hfam⟩
      · obtain ⟨hid, -, -, hm'⟩ := mediaIn_eq hin
        obtain ⟨n, -, he⟩ := hp.drawn i t _ ht hd
        rw [he, env.randomUUID_canonical, ← he] at hid
        have hid' : media.id = m'.id := Option.some.inj hid
        refine Media.Placed.next ⟨⟨i, t, user, ht, hr, sameUser_of_uuidIn ho, hid' ▸ hd⟩, ?_⟩ h
        intro path hp'
        rw [← hid']
        refine hpath path ?_
        rw [hm'] at hp'
        exact hp'
      · exact absurd hfam (by simp [Cmd.family])
  found t' ht' m hf := by
    rcases found_next h ht' hf with ⟨t, ht, hf⟩ | hm
    · exact (hp.found t ht m hf).next h
    · exact (hp.rows m hm).next h
  puts t' ht' key object a hmem := by
    obtain ⟨i, hti⟩ := List.getElem?_of_mem ht'
    rcases System.next_thread h hti with hlog | ⟨t, ht, hcall, hlog | ⟨c, k, -, hrest, hlog, -⟩⟩
    · rw [hlog] at hmem
      exact absurd hmem List.not_mem_nil
    · rw [hlog] at hmem ⊢
      exact hp.puts t (List.mem_of_getElem? ht) key object a hmem
    · rw [hlog] at hmem ⊢
      rcases List.mem_append.mp hmem with hmem | hmem
      · obtain ⟨id, hd, hpath⟩ := hp.puts t (List.mem_of_getElem? ht) key object a hmem
        exact ⟨id, hd.append _, hpath⟩
      · obtain ⟨rfl, -⟩ := Sigma.mk.inj (List.mem_singleton.mp hmem)
        have hc := hi t (List.mem_of_getElem? ht)
        rw [hrest] at hc
        rcases hc.1 with ⟨r, -, id, hd, hpath⟩ | ⟨-, hfam⟩
        · exact ⟨id, hd.append _, hpath⟩
        · exact absurd hfam (by simp [Cmd.family])

theorem owned_runs {ok : ApiPool → Label Task Act → Prop}
    (h : (api env fault).Runs ok ⟨World.empty, []⟩ p)
    (hu : env.DrawsApart p.world.drawn) : Owned env p := by
  generalize hs : (⟨World.empty, []⟩ : ApiPool) = s at h
  induction h with
  | refl =>
    subst hs
    refine ⟨?_, ?_, ?_, ?_, ?_⟩
    all_goals intros; simp_all [World.empty, Keyed.Table.empty]
  | @tail q q' l hr hok hn ih =>
    subst hs
    have hq := ih (hu.mono (drawn_le_next hn))
    exact hq.step (issuable_runs hr) hu hn

end Steps

/-! Isolation -/

/-- The object is one that a row of the user refers to, or that a request of the user has put. -/
def ObjectOf (env : Env) (v : String) (p : ApiPool) (key : String) : Prop :=
  (∃ m ∈ p.world.media.rows, env.uuidIn v = some m.ownerId ∧ m.RefersTo key) ∨
    ∃ t ∈ p.threads, ∃ r object a, t.call.user? = some r ∧ SameUser env r v ∧
      (⟨.putObject key object, a⟩ : Event Cmd Cmd.Reply) ∈ t.log

/-- What belongs to the user is the same in both pools. -/
structure Isolated (env : Env) (v : String) (p q : ApiPool) : Prop extends
    StoresKept env v p.world q.world where
  objects : ∀ key, ObjectOf env v p key → q.world.bucket key = p.world.bucket key

/-- The steps of requests of the user: they arrive, they and the background work that they start
issue commands, and the timers of their uploads fire. -/
def StepOf (r : String) (p : ApiPool) : Label Task Act → Prop
  | .call t => t.user? = some r
  | .step i => ∃ t, p.threads[i]? = some t ∧ t.call.user? = some r
  | .act a => a = .refreshSemaphoreTtl (semaphoreKey r)

section Isolation
variable {env : Env} {fault : Cmd → World → Option Fault} {p q : ApiPool} {l : Label Task Act}
  {r v key : String}

theorem ObjectOf.drawnFor (hp : Owned env p) (h : ObjectOf env v p key) :
    ∃ id, DrawnFor env p id v ∧ PathOf id key := by
  rcases h with ⟨m, hm, hv, hk⟩ | ⟨t, ht, r, object, a, hr, hv, hmem⟩
  · obtain ⟨⟨i, t, r, ht, hr, ho, hd⟩, hpath⟩ := hp.rows m hm
    exact ⟨m.id, ⟨i, t, r, ht, hr, ho.trans (sameUser_of_uuidIn hv).symm, hd⟩, hpath key hk⟩
  · obtain ⟨id, hd, hpath⟩ := hp.puts t ht key object a hmem
    obtain ⟨i, hi⟩ := List.getElem?_of_mem ht
    exact ⟨id, ⟨i, t, r, hi, hr, hv, hd⟩, hpath⟩

/-- A command of a thread writes objects of its user only. -/
theorem drawnFor_of_slot (hp : Owned env p) {i : ℕ} {t : ApiThread} {c : Cmd}
    (ht : p.threads[i]? = some t) (hr : t.call.user? = some r) (hc : Own r t.log c)
    (hs : c.slot? = some (.object key)) : ∃ id, DrawnFor env p id r ∧ PathOf id key := by
  have hdrew {id : String} (hd : Drew t.log id) : DrawnFor env p id r :=
    ⟨i, t, r, ht, hr, Or.inl rfl, hd⟩
  cases c <;> simp only [Cmd.slot?, Option.some.injEq, Slot.object.injEq, reduceCtorEq] at hs
  case putObject k object =>
    obtain ⟨id, hd, hpath⟩ := hc
    exact ⟨id, hdrew hd, hs ▸ hpath⟩
  case deleteObject k =>
    rcases hc with ⟨id, hd, hpath⟩ | ⟨m, hf, rfl, hk⟩
    · exact ⟨id, hdrew hd, hs ▸ hpath⟩
    · obtain ⟨hd, hpath⟩ := hp.found t (List.mem_of_getElem? ht) m hf
      exact ⟨m.id, hd, hpath key (hs ▸ hk)⟩

/-- One step for a user leaves what belongs to another. -/
theorem isolated_next (hp : Owned env p) (hi : AllIssuable p)
    (h : (api env fault).next p l = some q) (hl : StepOf r p l) (hv : ¬ SameUser env r v) :
    Isolated env v p q := by
  rcases System.next_cases h with ⟨x, -, rfl⟩ | ⟨a, rfl, rfl⟩ |
    ⟨i, pre, post, x, log, c, k, rfl, hts, hlen, rfl⟩
  · exact ⟨StoresKept.refl env v p.world, fun _ _ => rfl⟩
  · -- the timer of the upload refreshes its own counter
    obtain rfl := hl
    have hkey : semaphoreKey v ≠ semaphoreKey r :=
      fun h => hv (Or.inl (semaphoreKey_injective h).symm)
    exact ⟨⟨fun _ _ => Iff.rfl, fun _ _ => rfl, fun _ _ => rfl, Function.update_of_ne hkey _ _⟩,
      fun _ _ => rfl⟩
  · obtain ⟨t, ht, hr⟩ := hl
    obtain rfl : t = ⟨x, log, .step c k⟩ := by
      rw [hts, ← hlen] at ht
      simpa using ht.symm
    have hc : Own r log c := by
      rcases (hi _ (List.mem_of_getElem? ht)).1 with ⟨r', hr', hc⟩ | ⟨hn, -⟩
      · obtain rfl := Option.some.inj (hr.symm.trans hr')
        exact hc
      · exact absurd (hr.symm.trans hn) (by simp)
    -- a command that fails may have had its effect
    rcases @execFaulty_world env fault c p.world with he | he
    · constructor
      · show StoresKept env v p.world (env.execFaulty fault c p.world).2
        rw [he]
        exact StoresKept.refl env v p.world
      · intro key _
        exact congrArg (fun w => w.bucket key) he
    · constructor
      · show StoresKept env v p.world (env.execFaulty fault c p.world).2
        rw [he]
        exact storesKept_exec hc hv
      · intro key hkey
        show (env.execFaulty fault c p.world).2.bucket key = p.world.bucket key
        rw [he]
        refine exec_sameAt (s := .object key) fun hs => hv ?_
        obtain ⟨id, hd, hpath⟩ := drawnFor_of_slot hp ht hr hc hs
        obtain ⟨id', hd', hpath'⟩ := hkey.drawnFor hp
        obtain rfl := hpath.id_eq hpath'
        exact hd.unique hp hd'

theorem ObjectOf.next (h : ObjectOf env v p key) (hn : (api env fault).next p l = some q)
    (hi : Isolated env v p q) : ObjectOf env v q key := by
  rcases h with ⟨m, hm, hv, hk⟩ | ⟨t, ht, r, object, a, hr, hv, hmem⟩
  · exact Or.inl ⟨m, (hi.rows m hv).mpr hm, hv, hk⟩
  · obtain ⟨i, hti⟩ := List.getElem?_of_mem ht
    have hstep : (api env fault).Runs (fun _ _ => True) p q := .tail (.refl p) trivial hn
    obtain ⟨t', ht', hcall, hlog⟩ := hstep.thread hti
    exact Or.inr ⟨t', List.mem_of_getElem? ht', r, object, a, by rw [hcall, hr], hv,
      hlog.subset hmem⟩

/-- Whatever requests of a user do from a reachable state, and however they end: what belongs to
another user is the same afterwards. -/
theorem write_isolation (hp : (api env fault).Runs (fun _ _ => True) ⟨World.empty, []⟩ p)
    (hr : (api env fault).Runs (StepOf r) p q) (hv : ¬ SameUser env r v)
    (hu : env.DrawsApart q.world.drawn) : Isolated env v p q := by
  suffices h : Isolated env v p q ∧ ∀ key, ObjectOf env v p key → ObjectOf env v q key from h.1
  induction hr with
  | refl => exact ⟨⟨StoresKept.refl env v p.world, fun _ _ => rfl⟩, fun _ h => h⟩
  | @tail q q' l hr hok hn ih =>
    have hu' := hu.mono (drawn_le_next hn)
    obtain ⟨hiso, hobj⟩ := ih hu'
    have hruns := hp.trans (hr.mono fun _ _ _ => trivial)
    have howned := owned_runs hruns hu'
    have hstep := isolated_next howned (issuable_runs hruns) hn hok hv
    refine ⟨⟨hiso.toStoresKept.trans hstep.toStoresKept, fun key hkey => ?_⟩, fun key hkey => ?_⟩
    · exact (hstep.objects key (hobj key hkey)).trans (hiso.objects key hkey)
    · exact (hobj key hkey).next hn hstep

end Isolation

instance (r : String) (p : ApiPool) (l : Label Task Act) : Decidable (StepOf r p l) :=
  match l with
  | .call t => inferInstanceAs (Decidable (t.user? = some r))
  | .step i => decidable_of_iff ((p.threads[i]?.bind fun t => t.call.user?) = some r)
      Option.bind_eq_some_iff
  | .act a => inferInstanceAs (Decidable (a = .refreshSemaphoreTtl (semaphoreKey r)))

def messageRequest (userId : String) : Request where
  authenticatedUserId := userId
  endpoint := .upload {
    file := some ⟨"application/octet-stream", 1, some [0], none⟩
    thumbnail := none
    ownerId := none
    context := none
    conversationIdHeader := some "conversation"
    conversationId := none
    conversationIsE2EE := true
    sharedWith := none }

/-- The request of the user becomes thread `i` and runs to its end. -/
def requestAlone (i : ℕ) (req : Request) : List (Label Task Act) :=
  .call (.request req) :: List.replicate 20 (.step i)

/-- One user uploads, and then another one uploads the same byte and deletes his media. -/
theorem write_isolation_uploads : ∃ p q, (api exampleEnv fun _ _ => none).play
      (fun _ _ => True) ⟨World.empty, []⟩ (requestAlone 0 (messageRequest (exampleId 7))) = some p ∧
    (api exampleEnv fun _ _ => none).play (StepOf (exampleId 8)) p
      (requestAlone 2 (messageRequest (exampleId 8)) ++
        .call (.request ⟨exampleId 8, .delete (exampleId 3)⟩) ::
          List.replicate 6 (.step 4)) = some q ∧
    Isolated exampleEnv (exampleId 7) p q := by
  have hplay : (((api exampleEnv fun _ _ => none).play (fun _ _ => True) ⟨World.empty, []⟩
      (requestAlone 0 (messageRequest (exampleId 7)))).bind fun p =>
        (api exampleEnv fun _ _ => none).play (StepOf (exampleId 8)) p
          (requestAlone 2 (messageRequest (exampleId 8)) ++
            .call (.request ⟨exampleId 8, .delete (exampleId 3)⟩) ::
              List.replicate 6 (.step 4))).any (fun q => q.world.drawn ≤ 10) = true := by
    decide +kernel
  obtain ⟨q, hq, hdrawn⟩ := (Option.any_eq_true _ _).mp hplay
  obtain ⟨p, hp, hq⟩ := Option.bind_eq_some_iff.mp hq
  refine ⟨p, q, hp, hq, write_isolation (System.runs_of_play hp) (System.runs_of_play hq) ?_
    (exampleEnv_drawsApart (of_decide_eq_true hdrawn))⟩
  rintro (h | ⟨u, h, h'⟩)
  · exact absurd (exampleId_injective _ _ h) (by decide)
  · have h8 := h.symm.trans (exampleId_canonical 8)
    have h7 := h'.symm.trans (exampleId_canonical 7)
    exact absurd (exampleId_injective _ _ (Option.some.inj (h8.symm.trans h7))) (by decide)

end WhisprMedia
