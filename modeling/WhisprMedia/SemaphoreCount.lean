import WhisprMedia.SemaphoreExclusion
import WhisprMedia.ServiceErrors

/-! The upload semaphore never counts too many. Whatever the order of the commands, and with
counters that may be lost at any moment, the counter stays below the number of requests between
their INCR and their DECR; only the INCR decides between admission and 429. -/
namespace WhisprMedia
open Awaiting MediaService QuotaService

/-! Errors: 429 is the semaphore's -/

section Errors
variable {env : Env}

/-- Once an upload holds the semaphore, no error of it is answered with 429. -/
theorem uploadHeld_status (ownerId : String) (file : File) (context : MediaContext)
    (thumbnailFile : Option File) (sharedWith : Option (List String)) :
    (uploadHeld env ownerId file context thumbnailFile sharedWith).Throws
      fun e => e.status ≠ 429 := by
  have hord {α : Type} {x : Svc α} (hx : Ordinary x) : x.Throws fun e => e.status ≠ 429 :=
    hx.mono fun _ he => he.status
  refine ProgE.Throws.bind (hord (authorizeGroupIconUpload_ordinary _ _)) fun _ =>
    ProgE.Throws.bind ((enforceQuota_error _ _).mono fun e he => ?_) fun _ =>
    ProgE.Throws.bind (hord (validateFile_ordinary _ _)) fun _ =>
    ProgE.Throws.bind (hord (findDuplicate_ordinary _ _)) fun r => hord ?_
  · rcases he with he | ⟨r, rfl⟩
    · exact he.status
    · simp [Err.status]
  · cases r with
    | some existing =>
      exact ProgE.Throws.bind (mergeSharedWith_ordinary _ _ _) fun _ =>
        buildUploadResponse_ordinary existing
    | none =>
      exact ProgE.Throws.bind (storeNew_ordinary _ _ _ _ _) fun media =>
        ProgE.Throws.bind ordinary_await fun _ =>
        ProgE.Throws.bind (recordUpload_ordinary _ _) fun _ => buildUploadResponse_ordinary media

end Errors

/-! The INCR of an upload -/

section Log
variable {env : Env} {userId : String} {file : File} {context : MediaContext}
  {thumbnailFile : Option File} {sharedWith : Option (List String)}

theorem acquireSemaphore_log {log : List (Event Cmd Cmd.Reply)} {e : Err}
    (h : (acquireSemaphore userId).run.Follows log (.pure (.error e))) (he : e.status = 429) :
    ∃ n rest, log = ⟨.incr (semaphoreKey userId), .ok n⟩ :: rest ∧ n > MAX_CONCURRENT_UPLOADS := by
  unfold acquireSemaphore at h
  rcases ProgE.follows_of_bind h with ⟨e', h₁, hr⟩ | ⟨count, l₁, l₂, rfl, h₁, h₂⟩
  · exact absurd he ((Except.error.inj hr ▸ ordinary_await _ _ h₁ : Err.Ordinary _).status)
  · obtain ⟨v, rfl, hv⟩ := ProgE.follows_of_issue h₁
    obtain rfl : v = .ok count := by
      cases v with
      | ok n => exact congrArg Except.ok (Except.ok.inj hv).symm
      | error msg => exact absurd hv (by rintro ⟨⟩)
    refine ⟨count, l₂, rfl, ?_⟩
    by_contra hn
    rcases ProgE.follows_of_bind h₂ with ⟨e', h₃, hr⟩ | ⟨_, _, _, rfl, -, h₃⟩
    · exact absurd he ((Except.error.inj hr ▸ ordinary_await _ _ h₃ : Err.Ordinary _).status)
    · rw [if_neg hn] at h₃
      exact absurd he (ordinary_pure () _ _ h₃).status

/-- An upload is answered with 429 only if its INCR has answered more than the limit. -/
theorem upload_log {log : List (Event Cmd Cmd.Reply)} {e : Err}
    (h : (upload env userId file context thumbnailFile sharedWith).run.Follows log
      (.pure (.error e))) (he : e.status = 429) :
    ∃ n rest, log = ⟨.incr (semaphoreKey userId), .ok n⟩ :: rest ∧ n > MAX_CONCURRENT_UPLOADS := by
  rcases ProgE.follows_of_bind h with ⟨e', h₁, hr⟩ | ⟨_, l₁, l₂, rfl, -, h₂⟩
  · obtain rfl := Except.error.inj hr
    exact acquireSemaphore_log h₁ he
  · obtain ⟨l₃, l₄, o, -, hheld, ⟨e', hrel, hr⟩ | ⟨-, hr⟩⟩ := ProgE.follows_of_ensuring h₂
    · have hrelease := releaseSemaphore_ordinary userId _ _ hrel
      exact absurd he (Except.error.inj hr ▸ hrelease.status)
    · rw [← hr] at hheld
      exact absurd he (uploadHeld_status _ _ _ _ _ _ _ hheld)

/-- INCR is the first command of an upload, and there is no other. -/
theorem upload_starts : (handle env (.upload userId file context thumbnailFile sharedWith)).run.Starts
    (.incr (semaphoreKey userId)) fun c => ∀ key, c ≠ .incr key := by
  have hacquire : (acquireSemaphore userId).run.Starts (.incr (semaphoreKey userId))
      fun c => ∀ key, c ≠ .incr key := by
    refine Prog.Starts.bind (p := (await (.incr (semaphoreKey userId))).run)
      ⟨rfl, fun _ => trivial⟩ fun r => ?_
    cases r with
    | error e => trivial
    | ok count =>
      refine ProgE.Issues.bind ⟨by simp, fun _ => trivial⟩ fun _ => ?_
      split
      · exact ProgE.Issues.bind ⟨by simp, fun _ => trivial⟩ fun _ => ProgE.issues_throw _
      · exact ProgE.issues_pure ()
  have hrelease : ProgE.Issues (fun c => ∀ key, c ≠ .incr key) (releaseSemaphore userId) := by
    refine ProgE.Issues.bind ⟨by simp, fun _ => trivial⟩ fun remaining => ?_
    split
    · exact ⟨by simp, fun _ => trivial⟩
    · exact ProgE.issues_pure ()
  have hheld : ProgE.Issues (fun c => ∀ key, c ≠ .incr key)
      (uploadHeld env userId file context thumbnailFile sharedWith) := by
    refine ProgE.Issues.mono (uploadHeld_touches env userId file context thumbnailFile
      sharedWith).issues ?_
    rintro c hc key rfl
    simp [Cmd.family] at hc
  refine Prog.Starts.bind (Prog.Starts.bind hacquire fun r => ?_) fun r => ?_
  · cases r with
    | error e => trivial
    | ok a => exact ProgE.Issues.ensuring hheld hrelease
  · cases r <;> trivial

end Log

/-! Uploads in a run -/

/-- Every thread has got to where its log leads its body. -/
def Genuine (env : Env) (p : ServicePool) : Prop :=
  ∀ t ∈ p.threads, (handle env t.call).run.Follows t.log t.rest

section Uploads
variable {env : Env} {userId : String} {w : World} {p q : ServicePool} {A : Type}
  {act : A → World → World} {ok : ServicePool → Label Call A → Prop}

theorem genuine_empty : Genuine env ⟨w, []⟩ := fun _ ht => absurd ht List.not_mem_nil

theorem Genuine.runs (hp : Genuine env p) (h : ((service env).withActs act).Runs ok p q) :
    Genuine env q := h.follows hp

/-- A thread whose next command is the INCR has issued nothing before. -/
theorem thread_at_incr (hp : Genuine env p) {i : ℕ}
    (hi : p.nextCmd i = some (.incr (semaphoreKey userId))) :
    ∃ x k, p.threads[i]? = some ⟨x, [], .step (.incr (semaphoreKey userId)) k⟩ := by
  unfold Pool.nextCmd at hi
  split at hi
  · next x log c k ht =>
    obtain rfl := Option.some.inj hi
    have hf := hp _ (List.mem_of_getElem? ht)
    suffices hlog : log = [] by
      subst hlog
      exact ⟨x, k, ht⟩
    by_cases hx : ∃ o f c t s, x = .upload o f c t s
    · obtain ⟨o, f, c, t, s, rfl⟩ := hx
      rcases upload_starts.of_follows hf with ⟨hlog, -⟩ | ⟨v, rest, -, hrest⟩
      · exact hlog
      · exact absurd rfl (hrest.1 (semaphoreKey userId))
    · have hissue := ((handle_touches env x fun o f c t s hxu => hx ⟨o, f, c, t, s, hxu⟩).issues.of_follows
        hf).2.1
      exact absurd hissue (by simp [Cmd.family])
  · exact absurd hi (by simp)

/-- What an upload's outcome of 429 says about its log. -/
theorem log_of_429 (hp : Genuine env p) {t : ServiceThread}
    (ht : t ∈ p.threads) {file : File} {context : MediaContext} {thumbnailFile : Option File}
    {sharedWith : Option (List String)} {message : String}
    (hcall : t.call = .upload userId file context thumbnailFile sharedWith)
    (hout : t.outcome = some (.error (.tooManyRequests message))) :
    ∃ n rest, t.log = ⟨.incr (semaphoreKey userId), .ok n⟩ :: rest ∧ n > MAX_CONCURRENT_UPLOADS := by
  have hf := hp t ht
  rw [Thread.rest_of_outcome hout, hcall] at hf
  rcases ProgE.follows_of_bind hf with ⟨e, h₁, hr⟩ | ⟨_, _, _, -, -, h₂⟩
  · obtain rfl := Except.error.inj hr
    exact upload_log h₁ rfl
  · exact absurd (Prog.pure.inj (Prog.Follows.of_pure h₂).2) (by rintro ⟨⟩)

/-- An upload whose INCR finds at most two is admitted, and is not answered with 429. -/
theorem admitted_of_count (hp : Genuine env p) {i : ℕ}
    (hnext : p.nextCmd i = some (.incr (semaphoreKey userId)))
    (hcount : semaphoreCount p.world userId ≤ 2)
    (hq : ((service env).withActs act).next p (.step i) = some q) :
    (∃ t, q.threads[i]? = some t ∧ (phases userId).of t = .admitted) ∧
    ∀ q', ((service env).withActs act).Runs ok q q' →
      ∀ t file context thumbnailFile sharedWith message, q'.threads[i]? = some t →
      t.call = .upload userId file context thumbnailFile sharedWith →
      t.outcome ≠ some (.error (.tooManyRequests message)) := by
  obtain ⟨x, k, hthread⟩ := thread_at_incr hp hnext
  have hstep : ((service env).withActs act).Runs (fun _ _ => True) p q :=
    .tail (.refl p) trivial hq
  have hgenuine : Genuine env q := hp.runs hstep
  -- the thread in `q`: its log holds the answer of the INCR, which is at most 3
  have hat : ∃ rest, q.threads[i]? = some ⟨x, [⟨.incr (semaphoreKey userId),
      .ok (semaphoreCount p.world userId + 1)⟩], rest⟩ := by
    rcases System.next_cases hq with ⟨_, hl, -⟩ | ⟨_, hl, -⟩ |
      ⟨j, pre, post, y, log, c, k', hl, hts, hlen, rfl⟩
    · exact absurd hl (by simp)
    · exact absurd hl (by simp)
    · obtain rfl := Label.step.inj hl
      rw [hts] at hthread
      have hpre : (pre ++ (⟨y, log, .step c k'⟩ : ServiceThread) :: post)[i]? =
          some ⟨y, log, .step c k'⟩ := by simp [← hlen]
      obtain ⟨rfl, rfl, hrest⟩ := Thread.mk.inj (Option.some.inj (hpre.symm.trans hthread))
      obtain ⟨rfl, -⟩ := Prog.step.inj hrest
      refine ⟨k' (.ok (semaphoreCount p.world userId + 1)), ?_⟩
      rw [List.append_assoc, List.getElem?_append_right (by omega), hlen, Nat.sub_self]
      rfl
  obtain ⟨rest, hat⟩ := hat
  have hle : ¬ semaphoreCount p.world userId + 1 > MAX_CONCURRENT_UPLOADS := by
    simp only [MAX_CONCURRENT_UPLOADS]
    omega
  refine ⟨⟨_, hat, ?_⟩, ?_⟩
  · simp only [Account.of, phases, List.foldl_cons, List.foldl_nil, Phase.next, ↓reduceIte,
      if_neg hle]
  · intro q' hr t file context thumbnailFile sharedWith message ht hcall hout
    obtain ⟨t', ht', -, hprefix⟩ := hr.thread hat
    obtain rfl := Option.some.inj (ht'.symm.trans ht)
    obtain ⟨n, rest', hlog, hn⟩ := log_of_429 (hgenuine.runs hr) (List.mem_of_getElem? ht) hcall hout
    rw [hlog, List.cons_prefix_cons] at hprefix
    obtain ⟨-, hv⟩ := Sigma.mk.inj hprefix.1
    exact hle (Except.ok.inj (eq_of_heq hv) ▸ hn)

end Uploads

/-! Runs in which counters get lost -/

/-- Besides the usual acts, a counter may be gone at any moment. -/
inductive LossyAct where
  | act (a : Act)
  | lose (key : String)
  deriving DecidableEq

def LossyAct.apply (a : LossyAct) (w : World) : World :=
  match a with
  | .act a => a.apply w
  | .lose key => { w with semaphores := Function.update w.semaphores key none }

def lossyService (env : Env) : System Cmd Cmd.Reply World Call LossyAct (Except Err Reply) :=
  (service env).withActs LossyAct.apply

/-- The request has issued the INCR of the user's counter and not yet its DECR. -/
def holdsSlot (userId : String) (t : ServiceThread) : Bool := (phases userId).of t ≠ .outside

/-- The requests between their INCR and their DECR. -/
def slotsHeld (userId : String) (p : ServicePool) : ℕ := p.threads.countP (holdsSlot userId)

/-- Those of them that are not thread `i`. -/
def slotsHeldByOthers (userId : String) (i : ℕ) (p : ServicePool) : ℕ :=
  (p.threads.eraseIdx i).countP (holdsSlot userId)

/-- The counter is at most the number of requests that have raised it. -/
def BoundedCount (n : Int) (m : ℕ × ℕ) : Prop := n ≤ m.1 + m.2

theorem bounded_count_rules : CountRules BoundedCount fun _ => True where
  incr n f h := by
    unfold BoundedCount at h ⊢
    unfold Phase.ofCount
    split <;> simp only [Phase.value, Prod.fst_add, Prod.snd_add] <;> omega
  decr n g f hg h := by
    unfold BoundedCount at h ⊢
    cases g <;> simp only [ne_eq, not_true_eq_false] at hg <;>
      simp only [Phase.value, Prod.fst_add, Prod.snd_add] at h <;> omega
  del n f _ _ := by
    unfold BoundedCount
    omega

/-- The value of a counter after an act: as before, or 0. -/
theorem lossy_act_count (a : LossyAct) (w : World) (userId : String) :
    semaphoreCount (a.apply w) userId = semaphoreCount w userId ∨
      semaphoreCount (a.apply w) userId = 0 := by
  cases a with
  | lose key =>
    by_cases hk : semaphoreKey userId = key
    · exact Or.inr (by simp [LossyAct.apply, semaphoreCount, hk])
    · exact Or.inl (by simp [LossyAct.apply, semaphoreCount, hk])
  | act a =>
    by_cases ha : a = .expireSemaphore (semaphoreKey userId)
    · -- the key is dropped, if its time has come
      subst ha
      simp only [LossyAct.apply, Act.apply]
      split
      · exact Or.inr (by simp [semaphoreCount])
      · exact Or.inl rfl
    · exact Or.inl (act_semaphoreCount ha)

theorem lossy_sound (env : Env) (userId : String) :
    ((countDiscipline env userId BoundedCount fun _ => True).withActs LossyAct.apply).Sound
      (fun _ _ _ _ _ => True) fun _ _ => True where
  call _ x _ := (handle_callable bounded_count_rules x).withActs _
  fork _ x _ := (handle_callable bounded_count_rules x).withActs _
  act p a m _ hi := by
    refine ⟨?_, trivial⟩
    have hi : BoundedCount (semaphoreCount p.world userId) m := hi
    show BoundedCount (semaphoreCount (a.apply p.world) userId) m
    unfold BoundedCount at hi ⊢
    rcases lossy_act_count a p.world userId with h | h <;> omega
  step _ _ _ _ _ _ _ _ _ := trivial

theorem total_eq_slotsHeld (userId : String) (p : ServicePool) :
    ((phases userId).total p).1 + ((phases userId).total p).2 = slotsHeld userId p := by
  unfold slotsHeld Account.total
  induction p.threads with
  | nil => rfl
  | cons t ts ih =>
    rw [List.countP_cons, List.map_cons, List.sum_cons, Prod.fst_add, Prod.snd_add, ← ih]
    have hv : (((phases userId).value ((phases userId).of t)).1 +
        ((phases userId).value ((phases userId).of t)).2) =
        if holdsSlot userId t = true then 1 else 0 := by
      unfold holdsSlot
      cases (phases userId).of t <;> rfl
    omega

section Runs
variable {env : Env} {userId : String} {w : World} {p : ServicePool}

theorem count_le_slotsHeld (hw : w.semaphores (semaphoreKey userId) = none)
    (h : (lossyService env).Runs (fun _ _ => True) ⟨w, []⟩ p) :
    semaphoreCount p.world userId ≤ slotsHeld userId p := by
  have hstart : ((countDiscipline env userId BoundedCount fun _ => True).withActs
      LossyAct.apply).inv w 0 := by
    show BoundedCount (semaphoreCount w userId) 0
    simp [BoundedCount, semaphoreCount, hw]
  have hp := ((Discipline.holds_of_empty hstart).runs (lossy_sound env userId) h).1.inv
  have hp : BoundedCount (semaphoreCount p.world userId) ((phases userId).total p) := hp
  unfold BoundedCount at hp
  have ht := total_eq_slotsHeld userId p
  omega

theorem slotsHeldByOthers_eq {i : ℕ} {t : ServiceThread} (ht : p.threads[i]? = some t)
    (hout : holdsSlot userId t = false) : slotsHeldByOthers userId i p = slotsHeld userId p := by
  obtain ⟨hi, rfl⟩ := List.getElem?_eq_some_iff.mp ht
  unfold slotsHeldByOthers slotsHeld
  have hsplit : p.threads = p.threads.take i ++ p.threads[i] :: p.threads.drop (i + 1) := by
    rw [List.getElem_cons_drop, List.take_append_drop]
  rw [List.eraseIdx_eq_take_drop_succ, List.countP_append]
  conv_rhs => rw [hsplit]
  rw [List.countP_append, List.countP_cons, hout]
  simp

end Runs

/-- The counter is at most the number of requests between INCR and DECR. So a request is answered
with 429 only if its INCR has found three others there, and where there is none the next upload
is admitted. -/
theorem semaphoreCount_le_slotsHeld (env : Env) (userId : String) (w : World)
    (hw : w.semaphores (semaphoreKey userId) = none) (p : ServicePool)
    (h : (lossyService env).Runs (fun _ _ => True) ⟨w, []⟩ p) :
    semaphoreCount p.world userId ≤ slotsHeld userId p ∧
    (∀ i t file context thumbnailFile sharedWith message, p.threads[i]? = some t →
      t.call = .upload userId file context thumbnailFile sharedWith →
      t.outcome = some (.error (.tooManyRequests message)) →
      ∃ q, (lossyService env).Runs (fun _ _ => True) ⟨w, []⟩ q ∧
        (lossyService env).Runs (fun _ _ => True) q p ∧
        q.nextCmd i = some (.incr (semaphoreKey userId)) ∧ 3 ≤ slotsHeldByOthers userId i q) ∧
    (slotsHeld userId p = 0 → ∀ i, p.nextCmd i = some (.incr (semaphoreKey userId)) →
      ∀ q, (lossyService env).next p (.step i) = some q →
      (∃ t, q.threads[i]? = some t ∧ (phases userId).of t = .admitted) ∧
      ∀ q', (lossyService env).Runs (fun _ _ => True) q q' →
        ∀ t file context thumbnailFile sharedWith message, q'.threads[i]? = some t →
        t.call = .upload userId file context thumbnailFile sharedWith →
        t.outcome ≠ some (.error (.tooManyRequests message))) := by
  refine ⟨count_le_slotsHeld hw h, ?_, ?_⟩
  · intro i t file context thumbnailFile sharedWith message ht hcall hout
    obtain ⟨n, rest, hlog, hn⟩ := log_of_429 (genuine_empty.runs h) (List.mem_of_getElem? ht)
      hcall hout
    obtain ⟨q, hq, hqp, hnext, hans⟩ := h.moment ht (hlog ▸ List.mem_cons_self)
    refine ⟨q, hq, hqp, hnext, ?_⟩
    obtain ⟨x, k, hthread⟩ := thread_at_incr (genuine_empty.runs hq) hnext
    rw [slotsHeldByOthers_eq hthread (by rfl)]
    have hcount := count_le_slotsHeld hw hq
    obtain ⟨u, he, -⟩ := @exec_incr env userId q.world
    have hans : (env.exec (.incr (semaphoreKey userId)) q.world).1 = .ok n := hans
    rw [he] at hans
    have hn' : semaphoreCount q.world userId + 1 = n := Except.ok.inj hans
    have hn : (3 : Int) < n := hn
    omega
  · intro hzero i hnext q hq
    have hcount := count_le_slotsHeld hw h
    exact admitted_of_count (genuine_empty.runs h) hnext (by omega) hq

/-- Three uploads acquire; the fourth is told 4, and is answered with 429. -/
def fourUploads : List (Label Call LossyAct) :=
  [.call iconUpload, .call iconUpload, .call iconUpload, .call iconUpload,
    .step 0, .step 0, .step 1, .step 1, .step 2, .step 2, .step 3, .step 3, .step 3]

theorem semaphoreCount_le_slotsHeld_of_four : ∃ p q : ServicePool,
    (lossyService exampleEnv).play (fun _ _ => True) ⟨World.empty, []⟩ fourUploads = some p ∧
    semaphoreCount p.world (exampleId 7) ≤ slotsHeld (exampleId 7) p ∧
    (lossyService exampleEnv).Runs (fun _ _ => True) q p ∧
    q.nextCmd 3 = some (.incr (semaphoreKey (exampleId 7))) ∧
    3 ≤ slotsHeldByOthers (exampleId 7) 3 q := by
  have hplay : ((lossyService exampleEnv).play (fun _ _ => True) ⟨World.empty, []⟩ fourUploads).map
      (fun p => p.threads[3]?.map fun t => (t.call, t.outcome)) = some (some (iconUpload,
        some (.error (.tooManyRequests
          "You have reached the maximum of 3 concurrent uploads")))) := by
    decide +kernel
  obtain ⟨p, hp, ht⟩ := Option.map_eq_some_iff.mp hplay
  obtain ⟨t, ht, hpair⟩ := Option.map_eq_some_iff.mp ht
  obtain ⟨hcall, hout⟩ := Prod.mk.inj hpair
  obtain ⟨hcount, hrefused, -⟩ := semaphoreCount_le_slotsHeld exampleEnv (exampleId 7) World.empty
    rfl p (System.runs_of_play hp)
  obtain ⟨q, -, hqp, hnext, hothers⟩ := hrefused 3 t _ _ _ _ _ ht hcall hout
  exact ⟨p, q, hp, hcount, hqp, hnext, hothers⟩

end WhisprMedia
