import WhisprMedia.Authentication
import WhisprMedia.DedupEntries
import WhisprMedia.Ledgers
import WhisprMedia.SignedUrlLifetimes
import Mathlib.Algebra.Order.BigOperators.Group.List
import Mathlib.Data.List.Induction

/-! What the service announces to others. An event of an upload names a row that is there, and no row
is announced twice; an event of a deletion names a row that is inactive. -/
namespace WhisprMedia
open Awaiting Keyed MediaService

/-! Runs of the HTTP service, as their rows see them -/

section Runs
variable {KeyObject : Type} {env : Env} {http : HttpEnv KeyObject}
  {fault : Cmd → World → Option Fault} {p q : HttpPool KeyObject}
  {ok : HttpPool KeyObject → Label HttpCall HttpAct → Prop}

theorem service_next {l : Label HttpCall HttpAct} (hn : (httpService env http fault).next p l = some q) :
    q.world.service = p.world.service ∨ (∃ a : Act, q.world.service = a.apply p.world.service) ∨
      ∃ c, q.world.service = (env.exec c p.world.service).2 := by
  rcases System.next_cases hn with ⟨x, -, rfl⟩ | ⟨a, -, rfl⟩ |
    ⟨i, pre, post, x, log, c, k, -, -, -, rfl⟩
  · exact Or.inl rfl
  · exact (service_act a p.world).imp_right Or.inl
  · rcases c with c | c
    · have hcases : (env.execFaulty fault c p.world.service).2 = p.world.service ∨
          (env.execFaulty fault c p.world.service).2 = (env.exec c p.world.service).2 :=
        execFaulty_world c p.world.service
      rcases hcases with h | h
      · exact Or.inl h
      · exact Or.inr (Or.inr ⟨c, h⟩)
    · exact Or.inl (service_exec c p.world)

theorem rows_later (h : (httpService env http fault).Runs ok p q) :
    MediaLater p.world.service q.world.service := by
  induction h with
  | refl => exact MediaLater.refl _
  | tail _ _ hn ih =>
    rcases service_next hn with h | ⟨a, h⟩ | ⟨c, h⟩ <;> rw [h]
    · exact ih
    · exact ih.trans (MediaLater.of_eq (act_media a _))
    · exact ih.trans mediaLater_exec

theorem rows_canonical (h : (httpService env http fault).Runs ok p q)
    (hp : RowsCanonical env p.world.service) : RowsCanonical env q.world.service := by
  induction h with
  | refl => exact hp
  | tail _ _ hn ih =>
    rcases service_next hn with h | ⟨a, h⟩ | ⟨c, h⟩ <;> rw [h]
    · exact ih
    · exact fun k m hm => ih k m (act_media a _ ▸ hm)
    · exact rowsCanonical_exec ih

theorem rows_canonical_start (h : (httpService env http fault).Runs ok ⟨.start http, []⟩ q) :
    RowsCanonical env q.world.service :=
  rows_canonical h fun k m hm => absurd hm (by simp [HttpWorld.start, World.empty])

/-- A command that was answered with a value took effect at a moment of the run, after what its thread
had been answered before it. -/
theorem moment_of_split (h : (httpService env http fault).Runs ok ⟨.start http, []⟩ q)
    {t : HttpThread} (ht : t ∈ q.threads) {c : Cmd} {v : c.Value} {l₁ l₂ : List HttpEvent}
    (hlog : t.log = l₁ ++ ⟨.inl c, .ok v⟩ :: l₂) :
    ∃ p w', (httpService env http fault).Runs ok ⟨.start http, []⟩ p ∧
      (∃ t₁ ∈ p.threads, t₁.log = l₁) ∧ env.exec c p.world.service = (.ok v, w') ∧
      MediaLater p.world.service q.world.service ∧ MediaLater w' q.world.service := by
  obtain ⟨i, hi, hget⟩ := List.getElem_of_mem ht
  have hat : q.threads[i]? = some t := by rw [List.getElem?_eq_getElem hi, hget]
  rcases h.moment_between hat hlog with
    ⟨t₀, h₀, -⟩ | ⟨p₁, p₂, t₁, hp, hpq, hnext, h₁, -, hl₁, hexec⟩
  · exact absurd h₀ (by simp)
  · have hans : (env.execFaulty fault c p₁.world.service).1 = .ok v := congrArg Prod.fst hexec
    have hworld : (env.execFaulty fault c p₁.world.service).2 = p₂.world.service :=
      congrArg (fun r => r.2.service) hexec
    have hserved := execFaulty_ok hans
    rw [hserved] at hans hworld
    exact ⟨p₁, p₂.world.service, hp, ⟨t₁, List.mem_of_getElem? h₁, hl₁⟩, Prod.ext hans hworld,
      rows_later hpq, rows_later hnext⟩

theorem moment_of_returned (h : (httpService env http fault).Runs ok ⟨.start http, []⟩ q)
    {t : HttpThread} (ht : t ∈ q.threads) {c : Cmd} {v : c.Value}
    (he : (⟨.inl c, .ok v⟩ : HttpEvent) ∈ t.log) :
    ∃ w w', env.exec c w = (.ok v, w') ∧ RowsCanonical env w ∧ MediaLater w q.world.service ∧
      MediaLater w' q.world.service := by
  obtain ⟨l₁, l₂, hlog⟩ := List.append_of_mem he
  obtain ⟨p, w', hp, -, hexec, hlater, hafter⟩ := moment_of_split h ht hlog
  exact ⟨_, w', hexec, rows_canonical_start hp, hlater, hafter⟩

end Runs

/-! Announcements -/

def MediaEvent.uploadedId : MediaEvent → Option String
  | .uploaded payload => some payload.mediaId
  | .deleted _ => none

/-- What a command publishes, whether or not it gets to the subscribers. -/
def publishes : HttpEvent → Multiset MediaEvent
  | ⟨.inr (.publish event), _⟩ => {event}
  | _ => 0

/-- The id that a command announces as uploaded, as the database spells it. -/
def announces (env : Env) : HttpEvent → Multiset String
  | ⟨.inr (.publish (.uploaded payload)), _⟩ => ↑(env.uuidIn payload.mediaId).toList
  | _ => 0

/-- The id of the row that a command has inserted. -/
def inserts (env : Env) : HttpEvent → Multiset String
  | ⟨.inl (.saveMedia _ media), .ok _⟩ => ↑(env.uuidIn media.id).toList
  | _ => 0

/-- When a request announces something: after the row has been inserted and nothing has been announced
yet, or after the row has been found, for its owner, and set inactive. -/
def Announces (env : Env) (log : List HttpEvent) : Cmd ⊕ HttpCmd → Prop
  | .inr (.publish (.uploaded payload)) => ∃ user media, payload = uploadedPayload media ∧
      (⟨.inl .randomUUID, .ok media.id⟩ : HttpEvent) ∈ log ∧
      (⟨.inl (.saveMedia user media), .ok ()⟩ : HttpEvent) ∈ log ∧
      ∀ e ∈ log, announces env e = 0
  | .inr (.publish (.deleted payload)) => ∃ user id, ∃ media : Media,
      payload = deletedPayload media ∧ media.ownerId = user ∧
      ∃ l₁ l₂, log = l₁ ++ ⟨.inl (.softDelete user id), .ok ()⟩ :: l₂ ∧
        (⟨.inl (.findMedia user id), .ok (some media)⟩ : HttpEvent) ∈ l₁
  | _ => True

section Announce
variable {α β : Type} {env : Env} {log : List HttpEvent}

/-- Nothing has been announced so far. -/
def Unannounced (env : Env) (log : List HttpEvent) : Prop := ∀ e ∈ log, announces env e = 0

theorem Unannounced.append_lift (h : Unannounced env log) (l : ServiceLog) :
    Unannounced env (log ++ l.map lift) := by
  intro e he
  rcases List.mem_append.mp he with he | he
  · exact h e he
  · obtain ⟨e', -, rfl⟩ := List.mem_map.mp he
    rfl

theorem mem_append_lift {e : Event Cmd Cmd.Reply} {l : ServiceLog} (h : e ∈ l) :
    (lift e : HttpEvent) ∈ log ++ l.map lift :=
  List.mem_append_right _ (List.mem_map_of_mem h)

theorem within_announces (x : Svc α) : (within x).IssuesAfter (Announces env) log := by
  refine ProgE.Issues.after (Q := fun c => ∃ d, c = .inl d) ?_ fun _ c ⟨d, hd⟩ => hd ▸ trivial
  refine Prog.Issues.bind ?_ fun r => trivial
  generalize x.run = p
  induction p with
  | pure a => trivial
  | step c k ih => exact ⟨⟨c, rfl⟩, ih⟩

theorem within_bind_announces {x : Svc β} {f : β → Http α}
    (h : ∀ b l, x.run.Follows l (.pure (.ok b)) →
      (f b).IssuesAfter (Announces env) (log ++ l.map lift)) :
    (within x >>= f).IssuesAfter (Announces env) log := by
  refine (within_announces x).bind fun b l hl => ?_
  obtain ⟨l', rfl, hl'⟩ := ProgE.returned_of_inner hl
  exact h b l' hl'

theorem tell_bind_announces {c : HttpCmd} {f : c.Reply → Http α} (hc : Announces env log (.inr c))
    (h : ∀ r, (f r).IssuesAfter (Announces env) (log ++ [⟨.inr c, r⟩])) :
    (tell c >>= f).IssuesAfter (Announces env) log := by
  refine ProgE.IssuesAfter.bind ⟨hc, fun _ => trivial⟩ fun r l hl => ?_
  obtain ⟨v, rfl, hv⟩ := follows_of_tell hl
  obtain rfl := Except.ok.inj hv
  exact h _

/-- A row that was saved has been inserted; after a failed INSERT nothing is returned. -/
theorem saveMedia_follows {ownerId : String} {media : Media} {l : ServiceLog}
    (h : (saveMedia ownerId media).run.Follows l (.pure (.ok ()))) :
    l = [⟨.saveMedia ownerId media, .ok ()⟩] := by
  unfold saveMedia at h
  rw [ProgE.run_tryCatch_eq] at h
  obtain ⟨l₁, r, l₂, rfl, h₁, h₂⟩ := h.of_bind
  cases r with
  | ok v =>
    obtain ⟨rfl, -⟩ := h₂.of_pure
    rw [List.append_nil]
    exact follows_await h₁
  | error e =>
    obtain ⟨_, _, _, -, -, hthrow⟩ := ProgE.returned_of_bind h₂
    exact absurd (Prog.pure.inj hthrow.of_pure.2) (by simp)

/-- A new upload has drawn its id and inserted its row. -/
theorem storeNew_follows {ownerId : String} {file : File} {context : MediaContext}
    {thumbnailFile : Option File} {sharedWith : Option (List String)} {media : Media} {l : ServiceLog}
    (h : (storeNew env ownerId file context thumbnailFile sharedWith).run.Follows l
      (.pure (.ok media))) :
    ⟨.randomUUID, .ok media.id⟩ ∈ l ∧ ⟨.saveMedia ownerId media, .ok ()⟩ ∈ l := by
  obtain ⟨id, l₁, r₁, rfl, h₁, t₁⟩ := ProgE.returned_of_bind h
  obtain ⟨path, l₂, r₂, rfl, -, t₂⟩ := ProgE.returned_of_bind t₁
  obtain ⟨_, l₃, r₃, rfl, -, t₃⟩ := ProgE.returned_of_bind t₂
  obtain ⟨thumbnailPath, l₄, r₄, rfl, -, t₄⟩ := ProgE.returned_of_bind t₃
  obtain ⟨expiresAt, l₅, r₅, rfl, -, t₅⟩ := ProgE.returned_of_bind t₄
  obtain ⟨⟨⟩, l₆, r₆, rfl, h₆, t₆⟩ := ProgE.returned_of_bind t₅
  obtain ⟨rfl, hm⟩ := Prog.Follows.of_pure t₆
  obtain rfl := Except.ok.inj (Prog.pure.inj hm)
  obtain rfl := follows_await h₁
  obtain rfl := saveMedia_follows h₆
  exact ⟨by simp [newMedia], by simp⟩

/-! The programs -/

theorem uploadHeld_announces (hq : Unannounced env log) (ownerId : String) (file : File)
    (context : MediaContext) (thumbnailFile : Option File) (sharedWith : Option (List String)) :
    (HttpService.uploadHeld env ownerId file context thumbnailFile sharedWith).IssuesAfter
      (Announces env) log := by
  refine within_bind_announces fun _ l₁ _ => within_bind_announces fun _ l₂ _ =>
    within_bind_announces fun _ l₃ _ => within_bind_announces fun duplicate l₄ _ => ?_
  have hq₄ := (((hq.append_lift l₁).append_lift l₂).append_lift l₃).append_lift l₄
  cases duplicate with
  | some existing => exact within_bind_announces fun _ _ _ => within_announces _
  | none =>
    refine within_bind_announces fun media l₅ h₅ => within_bind_announces fun _ l₆ _ =>
      within_bind_announces fun _ l₇ _ => tell_bind_announces trivial fun _ =>
        tell_bind_announces ?_ fun _ => within_announces _
    obtain ⟨hdrawn, hsaved⟩ := storeNew_follows h₅
    have hmem {e : Event Cmd Cmd.Reply} (he : e ∈ l₅) : (lift e : HttpEvent) ∈
        log ++ l₁.map lift ++ l₂.map lift ++ l₃.map lift ++ l₄.map lift ++ l₅.map lift ++
          l₆.map lift ++ l₇.map lift ++ [⟨.inr (.inc .uploadsTotal), ()⟩] :=
      List.mem_append_left _ (List.mem_append_left _ (List.mem_append_left _ (mem_append_lift he)))
    refine ⟨ownerId, media, rfl, hmem hdrawn, hmem hsaved, fun e he => ?_⟩
    rcases List.mem_append.mp he with he | he
    · exact ((hq₄.append_lift l₅).append_lift l₆).append_lift l₇ e he
    · obtain rfl := List.mem_singleton.mp he
      rfl

theorem delete_announces (id requesterId : String) (ipAddress userAgent : Option String) :
    (HttpService.delete id requesterId ipAddress userAgent).IssuesAfter (Announces env) log := by
  refine within_bind_announces fun media l₁ h₁ => within_bind_announces fun _ l₂ h₂ =>
    within_bind_announces fun _ l₃ h₃ => within_bind_announces fun _ l₄ _ =>
      tell_bind_announces trivial fun _ => tell_bind_announces ?_ fun _ => ⟨trivial, fun _ => trivial⟩
  obtain rfl := findActive_follows h₁
  obtain rfl := follows_await h₃
  have howner := throwIf_eq_ok.mp (follows_sync h₂)
  refine ⟨requesterId, id, media, rfl, by simpa using howner, log ++ [⟨.inl (.findMedia requesterId id),
    .ok (some media)⟩] ++ l₂.map lift, l₄.map lift ++ [⟨.inr (.writeAccessLog media.id requesterId
      "delete" ipAddress userAgent), ()⟩], ?_, ?_⟩
  · simp only [List.append_assoc, List.map_cons, List.map_nil, List.cons_append, List.nil_append]
    rfl
  · simp

theorem handle_announces (hq : Unannounced env log) (ipAddress userAgent : Option String) (x : Call) :
    (HttpService.handle env ipAddress userAgent x).IssuesAfter (Announces env) log := by
  cases x with
  | upload ownerId file context thumbnailFile sharedWith =>
    refine ProgE.IssuesAfter.map (within_bind_announces fun _ l₁ _ => ?_)
    exact (uploadHeld_announces (hq.append_lift l₁) ownerId file context thumbnailFile
      sharedWith).ensuring fun _ => within_announces _
  | delete id requesterId =>
    exact (delete_announces id requesterId ipAddress userAgent).map
  | getBlob id requesterId =>
    refine ProgE.IssuesAfter.map (within_bind_announces fun media l₁ _ => ?_)
    exact within_bind_announces fun _ _ _ => tell_bind_announces trivial fun _ =>
      tell_bind_announces trivial fun _ => ProgE.issuesAfter_pure _
  | getThumbnail id requesterId =>
    refine ProgE.IssuesAfter.map (within_bind_announces fun media l₁ _ => ?_)
    cases truthy media.thumbnailPath with
    | none => exact ProgE.issuesAfter_pure _
    | some path =>
      exact within_bind_announces fun _ _ _ => within_bind_announces fun _ _ _ =>
        tell_bind_announces trivial fun _ => tell_bind_announces trivial fun _ =>
          ProgE.issuesAfter_pure _
  | streamBlob id requesterId =>
    exact ProgE.IssuesAfter.map (within_bind_announces fun _ _ _ => within_bind_announces fun _ _ _ =>
      tell_bind_announces trivial fun _ => ProgE.issuesAfter_pure _)
  | streamThumbnail id requesterId =>
    refine ProgE.IssuesAfter.map (within_bind_announces fun media l₁ _ => ?_)
    cases truthy media.thumbnailPath with
    | none => exact ProgE.issuesAfter_pure _
    | some path =>
      exact within_bind_announces fun _ _ _ => tell_bind_announces trivial fun _ =>
        ProgE.issuesAfter_pure _
  | _ => exact within_announces _

theorem serve_announces (env : Env) (req : HttpRequest) :
    (HttpService.serve env req).IssuesAfter (Announces env) [] := by
  have hguard := canActivate_issues false req.authorization
  refine ProgE.IssuesAfter.bind (hguard.after fun l c hc => ?_) fun user l hl => ?_
  · rcases c with c | c
    · trivial
    · cases c with
      | publish e => exact hc.elim
      | _ => trivial
  · obtain ⟨pem, payload, u, rfl, -, token, -, -, rfl⟩ := canActivate_follows hl
    have hq : Unannounced env (guardLog token pem payload u ++
        [⟨.inr (.enter ⟨u.userId, req.endpoint⟩), ()⟩]) := by
      intro e he
      simp only [guardLog, List.mem_append, List.mem_cons, List.not_mem_nil, or_false] at he
      rcases he with (rfl | rfl | rfl | rfl) | rfl <;> rfl
    refine tell_bind_announces trivial fun _ => within_bind_announces fun x l₁ _ => ?_
    exact (handle_announces (hq.append_lift l₁) _ _ x).bind fun _ _ _ => within_announces _

theorem body_announces (x : HttpCall) : (x.body env).IssuesAfter (Announces env) [] := by
  cases x with
  | request req => exact serve_announces env req
  | resetDailyUploads => exact within_announces _
  | checkAndPublishQuotaAlert userId => exact within_announces _

/-- A log announces no more than it has inserted. -/
theorem announced_le (h : ∀ l₁ e l₂, log = l₁ ++ e :: l₂ → Announces env l₁ e.1) :
    (log.map (announces env)).sum ≤ (log.map (inserts env)).sum := by
  induction log using List.reverseRecOn with
  | nil => exact le_rfl
  | append_singleton log e ih =>
    rw [List.map_append, List.map_append, List.sum_append, List.sum_append, List.map_singleton,
      List.map_singleton, List.sum_singleton, List.sum_singleton]
    have hbefore := ih fun l₁ e' l₂ hl => h l₁ e' (l₂ ++ [e]) (by rw [hl, List.append_assoc]; rfl)
    have hlast := h log e [] rfl
    obtain ⟨c, r⟩ := e
    rcases c with c | c
    · exact add_le_add hbefore (Multiset.zero_le _)
    · cases c with
      | publish event =>
        cases event with
        | uploaded payload =>
          obtain ⟨user, media, rfl, -, hsaved, hquiet⟩ := hlast
          -- this is the first announcement of the log, and the row has been inserted
          have hnone : (log.map (announces env)).sum = 0 :=
            List.sum_eq_zero fun m hm => by
              obtain ⟨e, he, rfl⟩ := List.mem_map.mp hm
              exact hquiet e he
          rw [hnone, zero_add]
          obtain ⟨l₁, l₂, rfl⟩ := List.append_of_mem hsaved
          rw [List.map_append, List.sum_append, List.map_cons, List.sum_cons]
          exact (Multiset.le_add_right _ _).trans ((Multiset.le_add_left _ _).trans
            (Multiset.le_add_right _ _))
        | deleted payload => exact add_le_add hbefore (Multiset.zero_le _)
      | _ => exact add_le_add hbefore (Multiset.zero_le _)

end Announce

/-! What the runs have announced -/

section Ledgers
variable {KeyObject : Type} (env : Env) (http : HttpEnv KeyObject)
  (fault : Cmd → World → Option Fault)

/-- The events that have been published: subscribers have received them, or they are lost. -/
def HttpWorld.sent (w : HttpWorld KeyObject) : List MediaEvent := w.published ++ w.lost

theorem sent_publish (event : MediaEvent) (w : HttpWorld KeyObject) :
    (http.exec (.publish event) w).2.sent.Perm (w.sent ++ [event]) := by
  simp only [HttpEnv.exec, HttpWorld.sent]
  split
  · rw [List.append_assoc, List.append_assoc]
    exact List.perm_append_comm.append_left _
  · rw [List.append_assoc]

def eventLedger : Ledger (httpService env http fault) (Multiset MediaEvent) (· = ·) where
  holds w := ↑w.sent
  entry := publishes
  exec c w := by
    rcases c with c | c
    · exact add_zero _
    · cases c with
      | publish event => exact (Multiset.coe_add _ _).trans (Multiset.coe_eq_coe.mpr
          (sent_publish http event w).symm)
      | _ => exact add_zero _
  act a w := by cases a <;> rfl

/-- The ids that events announce as uploaded, as the database spells them. -/
def uploadedIds (events : List MediaEvent) : List String :=
  events.filterMap fun event => event.uploadedId.bind env.uuidIn

/-- The uploads that have been announced. -/
def announcedLedger : Ledger (httpService env http fault) (Multiset String) (· = ·) where
  holds w := ↑(uploadedIds env w.sent)
  entry := announces env
  exec c w := by
    rcases c with c | c
    · exact add_zero _
    · cases c with
      | publish event =>
        have hone : announces env ⟨.inr (.publish event), (http.exec (.publish event) w).1⟩ =
            ↑(uploadedIds env [event]) := by
          cases event with
          | uploaded payload =>
            simp only [announces, uploadedIds, List.filterMap_cons, MediaEvent.uploadedId,
              Option.bind_some]
            cases env.uuidIn payload.mediaId <;> rfl
          | deleted payload => rfl
        show ↑(uploadedIds env w.sent) +
            announces env ⟨.inr (.publish event), (http.exec (.publish event) w).1⟩ =
          (↑(uploadedIds env (http.exec (.publish event) w).2.sent) : Multiset String)
        rw [hone, Multiset.coe_add, uploadedIds, uploadedIds, ← List.filterMap_append]
        exact Multiset.coe_eq_coe.mpr ((sent_publish http event w).symm.filterMap _)
      | _ => exact add_zero _
  act a w := by cases a <;> rfl

/-- The ids of the rows. -/
def rowIds (w : World) : Multiset String := ↑(w.media.rows.map (·.id))

variable {env} in
theorem rowIds_later {w w' : World} (h : MediaLater w w') : rowIds w ≤ rowIds w' := by
  refine (Multiset.le_iff_subset (Multiset.coe_nodup.mpr w.media.nodup)).mpr fun id hid => ?_
  obtain ⟨m, hm, rfl⟩ := List.mem_map.mp (Multiset.mem_coe.mp hid)
  obtain ⟨m', hm', hb⟩ := h m.id m (Table.get_key hm)
  exact Multiset.mem_coe.mpr (List.mem_map.mpr ⟨m', (Table.get_some.mp hm').1, hb.id_eq⟩)

variable {env} in
theorem rowIds_exec (c : Cmd) (w : World) :
    rowIds w + inserts env ⟨.inl c, (env.exec c w).1⟩ ≤ rowIds (env.exec c w).2 := by
  have hother (h : inserts env ⟨.inl c, (env.exec c w).1⟩ = 0) :
      rowIds w + inserts env ⟨.inl c, (env.exec c w).1⟩ ≤ rowIds (env.exec c w).2 := by
    rw [h, add_zero]
    exact rowIds_later mediaLater_exec
  cases c with
  | saveMedia user media =>
    generalize hexec : env.exec (.saveMedia user media) w = r at hother ⊢
    obtain ⟨ans, w'⟩ := r
    rcases exec_saveMedia hexec with ⟨m, rfl, hm, -, hnone, rfl⟩ | ⟨e, rfl, -⟩
    · have hid := (mediaIn_eq hm).1
      have hrows : (w.media.insert m).rows = w.media.rows ++ [m] := Table.rows_insert hnone
      show rowIds w + ↑(env.uuidIn media.id).toList ≤ ↑((w.media.insert m).rows.map (·.id))
      rw [hid, hrows, List.map_append, ← Multiset.coe_add]
      exact le_rfl
    · exact hother rfl
  | _ => exact hother rfl

/-- The rows that have been inserted are there; one may be there though its INSERT seemed to fail. -/
def rowLedger : Ledger (httpService env http fault) (Multiset String) (· ≤ ·) where
  holds w := rowIds w.service
  entry := inserts env
  exec c w := by
    rcases c with c | c
    · show rowIds w.service + inserts env ⟨.inl c, (env.execFaulty fault c w.service).1⟩ ≤
        rowIds (env.execFaulty fault c w.service).2
      unfold Env.execFaulty
      split
      · exact rowIds_exec c w.service
      · next f _ =>
        have hnone : inserts env ⟨.inl c, .error f.message⟩ = 0 := by cases c <;> rfl
        rw [hnone, add_zero]
        cases f.applied with
        | true => exact rowIds_later mediaLater_exec
        | false => exact le_rfl
    · rw [show inserts env ⟨.inr c, _⟩ = 0 from rfl, add_zero]
      exact (congrArg rowIds (service_exec c w)).ge
  act a w := by
    have hcases : (a.apply http w).service = w.service ∨
        ∃ b : Act, (a.apply http w).service = b.apply w.service := service_act a w
    rcases hcases with h | ⟨b, h⟩
    · exact (congrArg rowIds h).ge
    · show rowIds w.service ≤ rowIds (a.apply http w).service
      rw [h]
      exact rowIds_later (MediaLater.of_eq (act_media b _))

end Ledgers

section Announced
variable {KeyObject : Type} {env : Env} {http : HttpEnv KeyObject}
  {fault : Cmd → World → Option Fault} {q : HttpPool KeyObject}
  {ok : HttpPool KeyObject → Label HttpCall HttpAct → Prop}

/-- An event that was received was published by a thread, after what `Announces` says. -/
theorem published_announces (hq : (httpService env http fault).Runs ok ⟨.start http, []⟩ q)
    {event : MediaEvent} (he : event ∈ q.world.published) :
    ∃ t ∈ q.threads, ∃ log, log <+: t.log ∧ Announces env log (.inr (.publish event)) := by
  have hbalance := Ledger.balance (L := eventLedger env http fault) additive_eq hq
  have hmem : event ∈ (eventLedger env http fault).tally q.threads := by
    have hzero : (eventLedger env http fault).holds (.start http) = 0 := rfl
    rw [hzero, zero_add] at hbalance
    rw [hbalance]
    exact Multiset.mem_coe.mpr (List.mem_append_left _ he)
  obtain ⟨t, ht, ⟨c, r⟩, hlog, hentry⟩ := Ledger.mem_tally.mp hmem
  obtain ⟨rfl⟩ : c = .inr (.publish event) := by
    rcases c with c | c
    · exact absurd hentry (Multiset.notMem_zero _)
    · cases c with
      | publish event' => rw [Multiset.mem_singleton.mp hentry]
      | _ => exact absurd hentry (Multiset.notMem_zero _)
  obtain ⟨l₁, l₂, hsplit⟩ := List.append_of_mem hlog
  have hfollows := hq.follows (fun t ht => absurd ht List.not_mem_nil) t ht
  rw [hsplit] at hfollows
  refine ⟨t, ht, l₁, hsplit ▸ List.prefix_append _ _, ?_⟩
  exact (body_announces t.call).of_split hfollows

/-- An announced upload has its row. -/
theorem uploaded_row (hq : (httpService env http fault).Runs ok ⟨.start http, []⟩ q)
    {payload : MediaUploaded} (he : .uploaded payload ∈ q.world.published) :
    env.uuidIn payload.mediaId = some payload.mediaId ∧
    ∃ m, q.world.service.media.get payload.mediaId = some m ∧
      env.uuidIn payload.ownerId = some m.ownerId ∧ payload.context = m.context ∧
      payload.contentType = m.contentType ∧ payload.size = m.blobSize ∧
      payload.hasThumbnail = m.thumbnailPath.isSome := by
  obtain ⟨t, ht, log, hlog, user, media, rfl, hdrawn, hsaved, -⟩ := published_announces hq he
  obtain ⟨w, w', hexec, -, -, -⟩ := moment_of_returned hq ht (hlog.subset hdrawn)
  have hid : env.uuidIn media.id = some media.id := by
    have heq : env.randomUUID w.drawn = media.id := Except.ok.inj (congrArg Prod.fst hexec)
    rw [← heq]
    exact env.randomUUID_canonical _
  obtain ⟨u, u', hsave, -, -, hlater⟩ := moment_of_returned hq ht (hlog.subset hsaved)
  rcases exec_saveMedia hsave with ⟨m, -, hm, -, hnone, rfl⟩ | ⟨e, h, -⟩
  · obtain ⟨hmid, howner, -, hrow⟩ := mediaIn_eq hm
    have hsame : media.id = m.id := Option.some.inj (hid.symm.trans hmid)
    obtain ⟨m', hm', hb⟩ := hlater m.id m (by
      show (u.media.insert m).get m.id = some m
      rw [get_insertMedia hnone, if_pos rfl])
    have hrow' := hb.eq
    rw [hrow] at hrow'
    refine ⟨hid, m', ?_, ?_, ?_⟩
    · show q.world.service.media.get media.id = some m'
      rw [hsame, hm']
    · rw [hb.ownerId_eq]
      exact howner
    · rw [hrow']
      exact ⟨rfl, rfl, rfl, rfl⟩
  · exact absurd h (by simp)

/-- No row is announced twice. -/
theorem announced_once (hq : (httpService env http fault).Runs ok ⟨.start http, []⟩ q) :
    (uploadedIds env q.world.published).Nodup := by
  have hannounced := Ledger.balance (L := announcedLedger env http fault) additive_eq hq
  have hrows := Ledger.balance (L := rowLedger env http fault) additive_le hq
  have hthreads : (announcedLedger env http fault).tally q.threads ≤
      (rowLedger env http fault).tally q.threads := by
    refine List.sum_le_sum fun t ht => announced_le fun l₁ e l₂ hsplit => ?_
    have hfollows := hq.follows (fun t ht => absurd ht List.not_mem_nil) t ht
    rw [hsplit] at hfollows
    exact (body_announces t.call).of_split hfollows
  have hstart : (announcedLedger env http fault).holds (.start http) = 0 ∧
      (rowLedger env http fault).holds (.start http) = 0 := ⟨rfl, rfl⟩
  rw [hstart.1, zero_add] at hannounced
  rw [hstart.2, zero_add] at hrows
  have hle := hthreads.trans hrows
  rw [hannounced] at hle
  have hsent : (uploadedIds env q.world.sent).Nodup := Multiset.coe_nodup.mp
    (Multiset.nodup_of_le hle (Multiset.coe_nodup.mpr q.world.service.media.nodup))
  rw [uploadedIds, HttpWorld.sent, List.filterMap_append] at hsent
  exact hsent.of_append_left

/-- The row of an announced deletion is inactive. -/
theorem deleted_row (hq : (httpService env http fault).Runs ok ⟨.start http, []⟩ q)
    {payload : MediaDeleted} (he : .deleted payload ∈ q.world.published) :
    ∃ m, q.world.service.media.get payload.mediaId = some m ∧ m.isActive = false ∧
      m.ownerId = payload.ownerId ∧ m.context = payload.context := by
  obtain ⟨t, ht, log, ⟨l₃, hlog⟩, user, id, media, rfl, rfl, l₁, l₂, rfl, hfound⟩ :=
    published_announces hq he
  rw [List.append_assoc, List.cons_append] at hlog
  obtain ⟨p, w', hp, ⟨t₁, ht₁, rfl⟩, hexec, -, hafter⟩ := moment_of_split hq ht hlog.symm
  -- the row that was found is still its owner's when it is set inactive
  obtain ⟨w, _, hfind, hcanon, hlater, -⟩ := moment_of_returned hp ht₁ hfound
  obtain ⟨-, u, hu, hid, hget, -, -⟩ := exec_findMedia hfind rfl
  obtain ⟨m, hm, hb⟩ := hlater media.id media hget
  have howner : env.uuidIn media.ownerId = some m.ownerId := by
    rw [hb.ownerId_eq]
    exact (hcanon media.id media hget).ownerId
  rw [← hb.id_eq] at hid hm
  have hinactive := exec_softDelete hexec hid hm howner
  obtain ⟨m', hm', hb'⟩ := hafter m.id _ hinactive
  refine ⟨m', ?_, ?_, ?_, ?_⟩
  · show q.world.service.media.get media.id = some m'
    rw [← hb.id_eq]
    exact hm'
  · by_contra hactive
    exact absurd (hb'.active (by simpa using hactive)) (by simp)
  · exact hb'.ownerId_eq.trans hb.ownerId_eq
  · exact hb'.context_eq.trans hb.context_eq

end Announced

/-- Whatever fails and however requests interleave: an announced upload names a row with what it says of
it, no row is announced twice, and an announced deletion names an inactive row. -/
theorem announcements_true {KeyObject : Type} (env : Env) (http : HttpEnv KeyObject)
    (fault : Cmd → World → Option Fault) (q : HttpPool KeyObject)
    (hq : (httpService env http fault).Runs (fun _ _ => True) ⟨.start http, []⟩ q) :
    (∀ payload, .uploaded payload ∈ q.world.published →
      ∃ m, q.world.service.media.get payload.mediaId = some m ∧
        env.uuidIn payload.ownerId = some m.ownerId ∧ payload.context = m.context ∧
        payload.contentType = m.contentType ∧ payload.size = m.blobSize ∧
        payload.hasThumbnail = m.thumbnailPath.isSome) ∧
    (q.world.published.filterMap MediaEvent.uploadedId).Nodup ∧
    ∀ payload, .deleted payload ∈ q.world.published →
      ∃ m, q.world.service.media.get payload.mediaId = some m ∧ m.isActive = false ∧
        m.ownerId = payload.ownerId ∧ m.context = payload.context := by
  refine ⟨fun payload he => (uploaded_row hq he).2, ?_, fun payload he => deleted_row hq he⟩
  -- announced ids are spelled as the database spells them
  have hsame : q.world.published.filterMap MediaEvent.uploadedId =
      uploadedIds env q.world.published := by
    refine List.filterMap_congr fun event he => ?_
    cases event with
    | uploaded payload => exact (uploaded_row hq he).1.symm
    | deleted payload => rfl
  rw [hsame]
  exact announced_once hq

/-- A user uploads and deletes his media. -/
def uploadedThenDeleted : List (Label HttpCall HttpAct) :=
  keyLoaded ++ servedAlone 0 27 (bearing "t7" (.upload exampleUploadDto)) ++
    servedAlone 2 14 (bearing "t7" (.delete (exampleId 1)))

theorem announcements_true_of_both : ∃ q, (httpService exampleEnv exampleHttp faultless).play
      (fun _ _ => True) ⟨.start exampleHttp, []⟩ uploadedThenDeleted = some q ∧
    q.world.published = [.uploaded ⟨exampleId 1, exampleId 7, "message", "application/octet-stream",
      1, false⟩, .deleted ⟨exampleId 1, exampleId 7, "message"⟩] ∧
    (q.world.published.filterMap MediaEvent.uploadedId).Nodup ∧
    ∃ m, q.world.service.media.get (exampleId 1) = some m ∧ m.isActive = false := by
  have hplay : (((httpService exampleEnv exampleHttp faultless).play (fun _ _ => True)
      ⟨.start exampleHttp, []⟩ uploadedThenDeleted).filter fun q => q.world.published =
        [.uploaded ⟨exampleId 1, exampleId 7, "message", "application/octet-stream", 1, false⟩,
          .deleted ⟨exampleId 1, exampleId 7, "message"⟩]).isSome = true := by
    decide +kernel
  obtain ⟨q, hq⟩ := Option.isSome_iff_exists.mp hplay
  simp only [Option.filter_eq_some_iff, decide_eq_true_eq] at hq
  obtain ⟨hq, hevents⟩ := hq
  obtain ⟨-, honce, hdeleted⟩ :=
    announcements_true exampleEnv exampleHttp faultless q (System.runs_of_play hq)
  obtain ⟨m, hm, hinactive, -⟩ := hdeleted ⟨exampleId 1, exampleId 7, "message"⟩ (by simp [hevents])
  exact ⟨q, hq, hevents, honce, m, hm, hinactive⟩

end WhisprMedia
