import WhisprMedia.ReadCommitted
import WhisprMedia.SerialDeletes

/-! The transactions of the quota service statement by statement: any number of them side by side
under READ COMMITTED, each of them rolled back at any moment. A user gets one quota row, and no
charge and no release that was committed is lost. -/
namespace WhisprMedia
open Awaiting QuotaService ReadCommitted

/-- A call with a transaction on the quota row of a user. -/
inductive QuotaAccess where
  | getOrCreateQuota (userId : String)
  | recordUpload (userId : String) (blobSize : Int)
  | recordDelete (userId : String) (blobSize : Int)
  deriving DecidableEq, Repr

/-- The transaction of `recordUpload`. -/
def recordUploadTransaction (userId : String) (blobSize : Int) : Svc Unit := do
  let affected ← await (.chargeQuota userId blobSize)
  sync (enforceAffected userId affected)

/-- The transaction of `recordDelete`. -/
def recordDeleteTransaction (userId : String) (blobSize : Int) : Svc Unit := do
  let affected ← await (.releaseQuota userId blobSize)
  sync (enforceAffected userId affected)

theorem recordUpload_eq (userId : String) (blobSize : JsNumber) :
    recordUpload userId blobSize = (do
      sync (validateBlobSize blobSize)
      recordUploadTransaction userId blobSize.toBigInt
      invalidateCache userId
      await (.spawnQuotaAlert userId)) := by
  unfold recordUpload recordUploadTransaction
  simp only [ProgE.bind_bind]

theorem recordDelete_eq (userId : String) (blobSize : JsNumber) :
    recordDelete userId blobSize = (do
      sync (validateBlobSize blobSize)
      recordDeleteTransaction userId blobSize.toBigInt
      invalidateCache userId) := by
  unfold recordDelete recordDeleteTransaction
  simp only [ProgE.bind_bind]

/-- What is left of a transaction; it returns a row only to `getOrCreateQuota`. -/
abbrev QuotaBody := Prog Cmd Cmd.Reply (Except Err (Option UserQuota))

namespace QuotaAccess

def userId : QuotaAccess → String
  | .getOrCreateQuota userId | .recordUpload userId _ | .recordDelete userId _ => userId

def transaction : QuotaAccess → Svc (Option UserQuota)
  | .getOrCreateQuota userId => do
    let row ← findOrInsertRow userId
    pure (some row)
  | .recordUpload userId blobSize => do
    recordUploadTransaction userId blobSize
    pure none
  | .recordDelete userId blobSize => do
    recordDeleteTransaction userId blobSize
    pure none

/-- What the call does to the row of its user. -/
def change : QuotaAccess → UserQuota → UserQuota
  | .getOrCreateQuota _, q => q
  | .recordUpload _ blobSize, q => q.charge blobSize
  | .recordDelete _ blobSize, q => q.release blobSize

@[simp] theorem change_userId (call : QuotaAccess) (q : UserQuota) :
    (call.change q).userId = q.userId := by
  cases call <;> rfl

end QuotaAccess

/-! The database -/

structure QuotaTxn where
  call : QuotaAccess
  rest : QuotaBody
  writes : Writes UserQuota

structure QuotaDb where
  now : Int
  drawn : Nat
  /-- The committed rows. -/
  rows : List UserQuota
  txns : List QuotaTxn
  /-- The calls whose transactions have come to an end of their own, with what they got. -/
  ended : List (QuotaAccess × Except Err (Option UserQuota))

/-- One statement of a transaction, as `Env.exec` has it when no other transaction is open. -/
def statement (env : Env) (newRow : String → UserQuota) (rows : List UserQuota)
    (own : Writes UserQuota) (others : List (Writes UserQuota)) :
    (c : Cmd) → Option (c.Reply × Writes UserQuota)
  | .findQuota userId =>
    match env.uuidIn userId with
    | some u => some (.ok (lookup UserQuota.userId rows own u), own)
    | none => some (.error invalidUuid, own)
  | .insertQuotaOrIgnore userId =>
    match env.uuidIn userId with
    | some u =>
      (insertOrIgnore UserQuota.userId rows own others (newRow u)).map fun own => (.ok (), own)
    | none => some (.error invalidUuid, own)
  | .chargeQuota userId blobSize =>
    match env.uuidIn userId with
    | some u =>
      (update UserQuota.userId rows own others u (·.charge blobSize)).map fun p => (.ok p.1, p.2)
    | none => some (.error invalidUuid, own)
  | .releaseQuota userId blobSize =>
    match env.uuidIn userId with
    | some u =>
      (update UserQuota.userId rows own others u (·.release blobSize)).map fun p => (.ok p.1, p.2)
    | none => some (.error invalidUuid, own)
  | _ => none

/-- The transaction after its next statement; `none` while that waits. -/
def QuotaTxn.next (env : Env) (newRow : String → UserQuota) (rows : List UserQuota)
    (others : List (Writes UserQuota)) (t : QuotaTxn) : Option QuotaTxn :=
  match t.rest with
  | .pure _ => none
  | .step c k =>
    (statement env newRow rows t.writes others c).map fun p =>
      { t with rest := k p.1, writes := p.2 }

inductive QuotaEvent where
  | begin (call : QuotaAccess)
  | statement (i : Nat)
  /-- COMMIT after the last statement, or ROLLBACK after an error. -/
  | finish (i : Nat)
  | abort (i : Nat)
  | tick (ms : Nat)
  deriving DecidableEq, Repr

namespace QuotaDb

def start (now : Int) (drawn : Nat) (rows : List UserQuota) : QuotaDb := ⟨now, drawn, rows, [], []⟩

variable (env : Env)

/-- The row that an INSERT would add now. -/
def newRow (s : QuotaDb) (u : String) : UserQuota :=
  env.defaultQuota { World.empty with now := s.now, drawn := s.drawn } u

def step (s : QuotaDb) : QuotaEvent → Option QuotaDb
  | .begin call =>
    some { s with txns := ⟨call, call.transaction.run, Writes.empty⟩ :: s.txns }
  | .statement i => do
    let t ← s.txns[i]?
    let t' ← t.next env (s.newRow env) s.rows ((s.txns.eraseIdx i).map QuotaTxn.writes)
    some { s with txns := s.txns.set i t', drawn := s.drawn + 1 }
  | .finish i => do
    let t ← s.txns[i]?
    match t.rest with
    | .pure result =>
      some { s with
        rows := if result.isOk then view UserQuota.userId s.rows t.writes else s.rows
        txns := s.txns.eraseIdx i
        ended := s.ended ++ [(t.call, result)] }
    | .step _ _ => none
  | .abort i => do
    let _ ← s.txns[i]?
    some { s with txns := s.txns.eraseIdx i }
  | .tick ms => some { s with now := s.now + ms }

def play (s : QuotaDb) : List QuotaEvent → Option QuotaDb
  | [] => some s
  | e :: es => (s.step env e).bind fun s' => s'.play es

end QuotaDb

/-- A row after what a call has committed. -/
def applyEnded (env : Env) (q : UserQuota) (e : QuotaAccess × Except Err (Option UserQuota)) :
    UserQuota :=
  if e.2.isOk ∧ env.uuidIn e.1.userId = some q.userId then e.1.change q else q

/-- A row after what the calls have committed, in their order. -/
def replay (env : Env) (ended : List (QuotaAccess × Except Err (Option UserQuota)))
    (q : UserQuota) : UserQuota :=
  ended.foldl (applyEnded env) q

/-! The statements of a transaction that is alone are the commands of the service. -/

section Alone
variable {env : Env} {w : World}

theorem update_alone (t : Keyed.Table UserQuota.userId) (u : String) (f : UserQuota → UserQuota)
    (hf : ∀ q, (f q).userId = q.userId) :
    ∃ own, update UserQuota.userId t.rows Writes.empty [] u f =
        some (if (t.get u).isSome then 1 else 0, own) ∧
      view UserQuota.userId t.rows own = (t.modify u f hf).rows := by
  obtain ⟨p, hp⟩ : ∃ p, update UserQuota.userId t.rows Writes.empty [] u f = some p := ⟨_, rfl⟩
  rw [hp]
  cases hq : t.get u with
  | none =>
    have hk := Keyed.Table.get_none.mp hq
    rw [update_of_not_mem hk hp]
    refine ⟨_, rfl, ?_⟩
    rw [view_empty]
    refine (List.map_id _).symm.trans (List.map_congr_left fun q hmem => ?_)
    exact (if_neg fun he : q.userId = u => hk (he ▸ List.mem_map_of_mem hmem)).symm
  | some q =>
    obtain ⟨hmem, rfl⟩ := Keyed.Table.get_some.mp hq
    rw [update_of_mem t.nodup hmem hp]
    exact ⟨_, rfl, view_update t.nodup hmem hf⟩

theorem insert_alone (t : Keyed.Table UserQuota.userId) (q : UserQuota) :
    ∃ own, insertOrIgnore UserQuota.userId t.rows Writes.empty [] q = some own ∧
      view UserQuota.userId t.rows own = (t.insert q).rows := by
  unfold insertOrIgnore
  by_cases hk : q.userId ∈ t.rows.map UserQuota.userId
  · have hsome : (lookup UserQuota.userId t.rows Writes.empty q.userId).isSome := by
      rw [lookup_isSome, view_empty]
      exact hk
    rw [if_pos hsome]
    refine ⟨_, rfl, ?_⟩
    rw [view_empty, Keyed.Table.insert, dif_pos hk]
  · have hnone : ¬ (lookup UserQuota.userId t.rows Writes.empty q.userId).isSome := by
      rw [lookup_isSome, view_empty]
      exact hk
    rw [if_neg hnone]
    refine ⟨_, rfl, ?_⟩
    rw [Keyed.Table.insert, dif_neg hk]
    show t.rows.map id ++ [q] = _
    rw [List.map_id]

/-- What the transaction commits after its statement is what the command does to the rows. -/
theorem statement_alone (userId : String) (blobSize : Int) : ∀ c ∈ [Cmd.findQuota userId,
      .insertQuotaOrIgnore userId, .chargeQuota userId blobSize, .releaseQuota userId blobSize],
    ∃ own, statement env (env.defaultQuota w) w.quotas.rows Writes.empty [] c =
        some ((env.exec c w).1, own) ∧
      view UserQuota.userId w.quotas.rows own = (env.exec c w).2.quotas.rows := by
  intro c hc
  simp only [List.mem_cons, List.not_mem_nil, or_false] at hc
  cases hu : env.uuidIn userId with
  | none =>
    rcases hc with rfl | rfl | rfl | rfl <;> simp only [statement, Env.exec, hu] <;>
      exact ⟨_, rfl, view_empty⟩
  | some u =>
    rcases hc with rfl | rfl | rfl | rfl
    · simp only [statement, Env.exec, hu]
      refine ⟨_, ?_, view_empty⟩
      rw [lookup, view_empty]
      rfl
    · obtain ⟨own, hown, hview⟩ := insert_alone w.quotas (env.defaultQuota w u)
      simp only [statement, Env.exec, hu, hown]
      exact ⟨own, rfl, hview⟩
    · obtain ⟨own, hown, hview⟩ := update_alone w.quotas u (·.charge blobSize) fun _ => rfl
      rw [exec_chargeQuota hu]
      simp only [statement, hu, hown]
      exact ⟨own, rfl, hview⟩
    · obtain ⟨own, hown, hview⟩ := update_alone w.quotas u (·.release blobSize) fun _ => rfl
      rw [exec_releaseQuota hu]
      simp only [statement, hu, hown]
      exact ⟨own, rfl, hview⟩

end Alone

/-! The statements of one transaction -/

/-- The second SELECT of `getOrCreateQuota` finds no row. -/
def failedToFetch (userId : String) : Err :=
  .error s!"Failed to create or fetch quota for user {userId}"

theorem ne_failedToFetch {m userId : String} (hm : m.toList.head? ≠ some 'F') :
    Err.error m ≠ failedToFetch userId := by
  intro he
  have hmsg : m = s!"Failed to create or fetch quota for user {userId}" := Err.error.inj he
  apply hm
  rw [hmsg]
  simp only [String.toList_append, List.head?_append]
  rfl

def afterSecondFind (userId : String) : (Cmd.findQuota userId).Reply → QuotaBody
  | .ok (some row) => .pure (.ok (some row))
  | .ok none => .pure (.error (failedToFetch userId))
  | .error m => .pure (.error (.error m))

def afterInsert (userId : String) : (Cmd.insertQuotaOrIgnore userId).Reply → QuotaBody
  | .ok _ => .step (.findQuota userId) (afterSecondFind userId)
  | .error m => .pure (.error (.error m))

def afterFind (userId : String) : (Cmd.findQuota userId).Reply → QuotaBody
  | .ok (some row) => .pure (.ok (some row))
  | .ok none => .step (.insertQuotaOrIgnore userId) (afterInsert userId)
  | .error m => .pure (.error (.error m))

def afterUpdate (userId : String) : Except String Nat → QuotaBody
  | .ok affected => .pure ((enforceAffected userId affected).map fun _ => none)
  | .error m => .pure (.error (.error m))

theorem transaction_getOrCreateQuota (userId : String) :
    (QuotaAccess.getOrCreateQuota userId).transaction.run =
      .step (.findQuota userId) (afterFind userId) := by
  refine congrArg (Prog.step (Cmd.findQuota userId)) (funext fun r => ?_)
  match r with
  | .ok (some row) => rfl
  | .error m => rfl
  | .ok none =>
    refine congrArg (Prog.step (Cmd.insertQuotaOrIgnore userId)) (funext fun r => ?_)
    match r with
    | .error m => rfl
    | .ok _ =>
      refine congrArg (Prog.step (Cmd.findQuota userId)) (funext fun r => ?_)
      match r with
      | .ok (some row) => rfl
      | .ok none => rfl
      | .error m => rfl

theorem transaction_recordUpload (userId : String) (blobSize : Int) :
    (QuotaAccess.recordUpload userId blobSize).transaction.run =
      .step (.chargeQuota userId blobSize) (afterUpdate userId) := by
  refine congrArg (Prog.step (Cmd.chargeQuota userId blobSize)) (funext fun r => ?_)
  match r with
  | .error m => rfl
  | .ok affected =>
    show (sync (enforceAffected userId affected) >>= fun _ => pure none : Svc _).run = _
    rw [afterUpdate]
    cases enforceAffected userId affected <;> rfl

theorem transaction_recordDelete (userId : String) (blobSize : Int) :
    (QuotaAccess.recordDelete userId blobSize).transaction.run =
      .step (.releaseQuota userId blobSize) (afterUpdate userId) := by
  refine congrArg (Prog.step (Cmd.releaseQuota userId blobSize)) (funext fun r => ?_)
  match r with
  | .error m => rfl
  | .ok affected =>
    show (sync (enforceAffected userId affected) >>= fun _ => pure none : Svc _).run = _
    rw [afterUpdate]
    cases enforceAffected userId affected <;> rfl

theorem transaction_ne_pure (call : QuotaAccess) (result : Except Err (Option UserQuota)) :
    call.transaction.run ≠ .pure result := by
  intro h
  cases call with
  | getOrCreateQuota userId =>
    rw [transaction_getOrCreateQuota] at h
    cases h
  | recordUpload userId blobSize =>
    rw [transaction_recordUpload] at h
    cases h
  | recordDelete userId blobSize =>
    rw [transaction_recordDelete] at h
    cases h

/-- Where a transaction can be. -/
inductive QuotaPhase (env : Env) (rows : List UserQuota) : QuotaTxn → Prop
  | opened (call : QuotaAccess) : QuotaPhase env rows ⟨call, call.transaction.run, Writes.empty⟩
  | missing (userId : String) :
      QuotaPhase env rows ⟨.getOrCreateQuota userId,
        .step (.insertQuotaOrIgnore userId) (afterInsert userId), Writes.empty⟩
  | inserted {userId u : String} {l : List UserQuota} (hu : env.uuidIn userId = some u)
      (hnew : ∀ q ∈ l, q.Fresh) (hrow : u ∈ (view UserQuota.userId rows ⟨l, []⟩).map (·.userId)) :
      QuotaPhase env rows ⟨.getOrCreateQuota userId,
        .step (.findQuota userId) (afterSecondFind userId), ⟨l, []⟩⟩
  | found {userId u : String} {l : List UserQuota} (row : UserQuota)
      (hu : env.uuidIn userId = some u) (hnew : ∀ q ∈ l, q.Fresh)
      (hrow : u ∈ (view UserQuota.userId rows ⟨l, []⟩).map (·.userId)) :
      QuotaPhase env rows ⟨.getOrCreateQuota userId, .pure (.ok (some row)), ⟨l, []⟩⟩
  | changed {call : QuotaAccess} {q : UserQuota} (hu : env.uuidIn call.userId = some q.userId)
      (hq : q ∈ rows) : QuotaPhase env rows ⟨call, .pure (.ok none), ⟨[], [call.change q]⟩⟩
  | refused (call : QuotaAccess) {e : Err} (he : ∀ userId, e ≠ failedToFetch userId)
      (w : Writes UserQuota) : QuotaPhase env rows ⟨call, .pure (.error e), w⟩

section Phases
variable {env : Env} {rows : List UserQuota} {others : List (Writes UserQuota)}
  {newRow : String → UserQuota}

theorem invalidUuid_ne (userId : String) : Err.error invalidUuid ≠ failedToFetch userId :=
  ne_failedToFetch (by decide)

theorem enforceAffected_ne {userId : String} {affected : ℕ} {e : Err}
    (h : enforceAffected userId affected = .error e) (user : String) : e ≠ failedToFetch user := by
  unfold enforceAffected throwIf at h
  split at h
  · rw [← Except.error.inj h]
    apply ne_failedToFetch
    rw [String.toList_append, List.head?_append]
    exact fun hn => absurd hn (by simp [show (toString "No quota row found for user ").toList.head? =
      some 'N' from rfl])
  · cases h

/-- The update of a transaction has changed the one row of its user, or there is none. -/
theorem changed_of_update {call : QuotaAccess} {u : String} {p : ℕ × Writes UserQuota}
    (hrows : (rows.map UserQuota.userId).Nodup) (hu : env.uuidIn call.userId = some u)
    (h : update UserQuota.userId rows Writes.empty others u call.change = some p) :
    QuotaPhase env rows ⟨call, afterUpdate call.userId (.ok p.1), p.2⟩ := by
  by_cases hk : u ∈ rows.map UserQuota.userId
  · obtain ⟨q, hq, rfl⟩ := List.mem_map.mp hk
    rw [update_of_mem hrows hq h]
    exact .changed hu hq
  · rw [update_of_not_mem hk h]
    exact .refused call (@enforceAffected_ne call.userId 0 _ rfl) _

/-- The second SELECT is answered with a row: the INSERT has left one, whoever wrote it. -/
theorem QuotaPhase.next {t t' : QuotaTxn} (hrows : (rows.map UserQuota.userId).Nodup)
    (hnew : ∀ u, (newRow u).Fresh ∧ (newRow u).userId = u) (h : QuotaPhase env rows t)
    (ht : t.next env newRow rows others = some t') : QuotaPhase env rows t' := by
  cases h with
  | opened call =>
    cases call with
    | getOrCreateQuota userId =>
      rw [transaction_getOrCreateQuota] at ht
      simp only [QuotaTxn.next, statement] at ht
      cases hu : env.uuidIn userId with
      | none =>
        rw [hu] at ht
        cases ht
        exact .refused _ (invalidUuid_ne) _
      | some u =>
        rw [hu] at ht
        cases ht
        cases hl : lookup UserQuota.userId rows Writes.empty u with
        | none => exact .missing userId
        | some row =>
          have hsome : (lookup UserQuota.userId rows Writes.empty u).isSome := by rw [hl]; rfl
          exact .found row hu (by simp) (lookup_isSome.mp hsome)
    | recordUpload userId blobSize =>
      rw [transaction_recordUpload] at ht
      simp only [QuotaTxn.next, statement] at ht
      cases hu : env.uuidIn userId with
      | none =>
        rw [hu] at ht
        cases ht
        exact .refused _ (invalidUuid_ne) _
      | some u =>
        simp only [hu, Option.map_map, Option.map_eq_some_iff] at ht
        obtain ⟨p, hp, rfl⟩ := ht
        exact @changed_of_update env rows others (.recordUpload userId blobSize) u p hrows hu hp
    | recordDelete userId blobSize =>
      rw [transaction_recordDelete] at ht
      simp only [QuotaTxn.next, statement] at ht
      cases hu : env.uuidIn userId with
      | none =>
        rw [hu] at ht
        cases ht
        exact .refused _ (invalidUuid_ne) _
      | some u =>
        simp only [hu, Option.map_map, Option.map_eq_some_iff] at ht
        obtain ⟨p, hp, rfl⟩ := ht
        exact @changed_of_update env rows others (.recordDelete userId blobSize) u p hrows hu hp
  | missing userId =>
    simp only [QuotaTxn.next, statement] at ht
    cases hu : env.uuidIn userId with
    | none =>
      rw [hu] at ht
      cases ht
      exact .refused _ (invalidUuid_ne) _
    | some u =>
      simp only [hu, Option.map_map, Option.map_eq_some_iff] at ht
      obtain ⟨w, hw, rfl⟩ := ht
      unfold insertOrIgnore at hw
      split at hw
      · next hsome =>
        -- a row was committed after the first SELECT
        cases hw
        rw [(hnew u).2] at hsome
        exact .inserted hu (by simp) (lookup_isSome.mp hsome)
      · split at hw
        · cases hw
        · cases hw
          refine .inserted hu (by simpa [Writes.empty] using (hnew u).1) ?_
          rw [map_key_view]
          exact List.mem_append_right _ (by simp [Writes.empty, (hnew u).2])
  | inserted hu hfresh hrow =>
    simp only [QuotaTxn.next, statement, hu] at ht
    cases ht
    obtain ⟨row, hl⟩ := Option.isSome_iff_exists.mp (lookup_isSome.mpr hrow)
    rw [hl]
    exact .found row hu hfresh hrow
  | found => cases ht
  | changed => cases ht
  | refused => cases ht

/-- Another transaction ends: the rows of the user are still there, and locked rows unchanged. -/
theorem QuotaPhase.committed {t : QuotaTxn} {w : Writes UserQuota}
    (hrow : ∀ u ∈ rows.map UserQuota.userId, u ∈ (view UserQuota.userId rows w).map (·.userId))
    (hlocked : ∀ q ∈ rows, t.writes.locks UserQuota.userId q.userId →
      w.version UserQuota.userId q = q) (h : QuotaPhase env rows t) :
    QuotaPhase env (view UserQuota.userId rows w) t := by
  have hkeys {u : String} {l : List UserQuota}
      (hu : u ∈ (view UserQuota.userId rows ⟨l, []⟩).map (·.userId)) :
      u ∈ (view UserQuota.userId (view UserQuota.userId rows w) ⟨l, []⟩).map (·.userId) := by
    rw [map_key_view] at hu ⊢
    exact (List.mem_append.mp hu).elim (fun hu => List.mem_append_left _ (hrow u hu))
      fun hu => List.mem_append_right _ hu
  cases h with
  | opened call => exact .opened call
  | missing userId => exact .missing userId
  | inserted hu hfresh hrow => exact .inserted hu hfresh (hkeys hrow)
  | found row hu hfresh hrow => exact .found row hu hfresh (hkeys hrow)
  | @changed call q hu hq =>
    have hlock : (⟨[], [call.change q]⟩ : Writes UserQuota).locks UserQuota.userId q.userId := by
      simp [Writes.locks]
    have hmem : w.version UserQuota.userId q ∈ view UserQuota.userId rows w := mem_view_of_mem hq
    rw [hlocked q hq hlock] at hmem
    exact .changed hu hmem
  | refused call he w' => exact .refused call he w'

end Phases

/-! Runs -/

namespace QuotaDb
variable {env : Env} {s s' : QuotaDb}

/-- What one step does. -/
inductive Steps (env : Env) (s : QuotaDb) : QuotaDb → Prop
  | begun (call : QuotaAccess) :
      Steps env s { s with txns := ⟨call, call.transaction.run, Writes.empty⟩ :: s.txns }
  | stated {pre post : List QuotaTxn} {t t' : QuotaTxn} (hs : s.txns = pre ++ t :: post)
      (ht : t.next env (s.newRow env) s.rows ((pre ++ post).map QuotaTxn.writes) = some t') :
      Steps env s { s with txns := pre ++ t' :: post, drawn := s.drawn + 1 }
  | finished {pre post : List QuotaTxn} {t : QuotaTxn} {result : Except Err (Option UserQuota)}
      (hs : s.txns = pre ++ t :: post) (ht : t.rest = .pure result) :
      Steps env s { s with
        rows := if result.isOk then view UserQuota.userId s.rows t.writes else s.rows
        txns := pre ++ post
        ended := s.ended ++ [(t.call, result)] }
  | aborted {pre post : List QuotaTxn} {t : QuotaTxn} (hs : s.txns = pre ++ t :: post) :
      Steps env s { s with txns := pre ++ post }
  | ticked (ms : ℕ) : Steps env s { s with now := s.now + ms }

theorem exists_cut {α : Type} {l : List α} {i : ℕ} {a : α} (h : l[i]? = some a) :
    ∃ pre post, l = pre ++ a :: post ∧ l.eraseIdx i = pre ++ post ∧
      ∀ b, l.set i b = pre ++ b :: post := by
  obtain ⟨hi, rfl⟩ := List.getElem?_eq_some_iff.mp h
  refine ⟨l.take i, l.drop (i+1), ?_, ?_, ?_⟩
  · rw [← List.drop_eq_getElem_cons hi, List.take_append_drop]
  · exact List.eraseIdx_eq_take_drop_succ l i
  · intro b
    rw [List.set_eq_take_append_cons_drop, if_pos hi]

theorem steps_of_step {e : QuotaEvent} (h : s.step env e = some s') : Steps env s s' := by
  cases e with
  | begin call =>
    cases h
    exact .begun call
  | statement i =>
    obtain ⟨t, ht, h⟩ := Option.bind_eq_some_iff.mp h
    obtain ⟨t', ht', h⟩ := Option.bind_eq_some_iff.mp h
    obtain ⟨pre, post, hs, herase, hset⟩ := exists_cut ht
    cases h
    rw [hset]
    rw [herase] at ht'
    exact .stated hs ht'
  | finish i =>
    obtain ⟨t, ht, h⟩ := Option.bind_eq_some_iff.mp h
    obtain ⟨pre, post, hs, herase, -⟩ := exists_cut ht
    cases hr : t.rest with
    | step c k =>
      rw [hr] at h
      cases h
    | pure result =>
      rw [hr] at h
      cases h
      rw [herase]
      exact .finished hs hr
  | abort i =>
    obtain ⟨t, ht, h⟩ := Option.bind_eq_some_iff.mp h
    obtain ⟨pre, post, hs, herase, -⟩ := exists_cut ht
    cases h
    rw [herase]
    exact .aborted hs
  | tick ms =>
    cases h
    exact .ticked ms

end QuotaDb

/-- A call that has ended was not refused for want of a row, and has one if it succeeded. -/
structure Served (env : Env) (rows : List UserQuota)
    (e : QuotaAccess × Except Err (Option UserQuota)) : Prop where
  fetched : ∀ userId, e.2 ≠ .error (failedToFetch userId)
  row : e.2.isOk = true → ∃ u ∈ rows.map UserQuota.userId, env.uuidIn e.1.userId = some u

structure QuotaInv (env : Env) (s : QuotaDb) : Prop where
  consistent : Consistent UserQuota.userId s.rows (s.txns.map QuotaTxn.writes)
  phases : ∀ t ∈ s.txns, QuotaPhase env s.rows t
  served : ∀ e ∈ s.ended, Served env s.rows e

/-- The rows of `s` after what was committed since, and rows that nobody has charged. -/
structure Later (env : Env) (s s' : QuotaDb)
    (new : List (QuotaAccess × Except Err (Option UserQuota))) : Prop where
  ended : s'.ended = s.ended ++ new
  kept : ∀ q ∈ s.rows, replay env new q ∈ s'.rows
  added : ∀ q' ∈ s'.rows, (∃ q ∈ s.rows, q' = replay env new q) ∨
    q'.Fresh ∧ q'.userId ∉ s.rows.map UserQuota.userId ∧ replay env new q' = q'

/-- Every row of `s` is there in `s'`, with what was committed since. -/
def RowsKept (env : Env) (s s' : QuotaDb) : Prop :=
  ∃ new, s'.ended = s.ended ++ new ∧ ∀ q ∈ s.rows, replay env new q ∈ s'.rows

/-- Each row is one of the start, or a new one for a user who had none, with what was committed. -/
structure Grown (env : Env) (rows : List UserQuota) (s : QuotaDb) : Prop where
  base : ∀ q ∈ s.rows, ∃ base, q = replay env s.ended base ∧
    (base ∈ rows ∨ base.Fresh ∧ base.userId ∉ rows.map UserQuota.userId)
  users : ∀ u ∈ rows.map UserQuota.userId, u ∈ s.rows.map UserQuota.userId

section Runs
variable {env : Env} {s s' : QuotaDb} {rows : List UserQuota}

@[simp] theorem applyEnded_userId (q : UserQuota)
    (e : QuotaAccess × Except Err (Option UserQuota)) : (applyEnded env q e).userId = q.userId := by
  unfold applyEnded
  split
  · exact QuotaAccess.change_userId _ _
  · rfl

@[simp] theorem replay_userId (ended : List (QuotaAccess × Except Err (Option UserQuota)))
    (q : UserQuota) : (replay env ended q).userId = q.userId := by
  unfold replay
  induction ended generalizing q with
  | nil => rfl
  | cons e es ih => rw [List.foldl_cons, ih, applyEnded_userId]

theorem replay_append (l l' : List (QuotaAccess × Except Err (Option UserQuota))) (q : UserQuota) :
    replay env (l ++ l') q = replay env l' (replay env l q) := List.foldl_append

/-- The calls of other users leave a row as it is. -/
theorem replay_of_other {ended : List (QuotaAccess × Except Err (Option UserQuota))} {q : UserQuota}
    (h : ∀ e ∈ ended, e.2.isOk = true → env.uuidIn e.1.userId ≠ some q.userId) :
    replay env ended q = q := by
  unfold replay
  induction ended with
  | nil => rfl
  | cons e es ih =>
    have he : applyEnded env q e = q := if_neg fun ha => h e List.mem_cons_self ha.1 ha.2
    rw [List.foldl_cons, he]
    exact ih fun e he => h e (List.mem_cons_of_mem _ he)

theorem Later.of_rows (hr : s'.rows = s.rows) (he : s'.ended = s.ended) : Later env s s' [] where
  ended := by rw [he, List.append_nil]
  kept q hq := hr ▸ hq
  added q' hq' := Or.inl ⟨q', hr ▸ hq', rfl⟩

theorem RowsKept.refl (s : QuotaDb) : RowsKept env s s :=
  ⟨[], (List.append_nil _).symm, fun _ hq => hq⟩

theorem RowsKept.trans {s'' : QuotaDb} (h : RowsKept env s s') (h' : RowsKept env s' s'') :
    RowsKept env s s'' := by
  obtain ⟨l, he, hk⟩ := h
  obtain ⟨l', he', hk'⟩ := h'
  refine ⟨l ++ l', by rw [he', he, List.append_assoc], fun q hq => ?_⟩
  rw [replay_append]
  exact hk' _ (hk q hq)

theorem Later.rowsKept {new : List (QuotaAccess × Except Err (Option UserQuota))}
    (h : Later env s s' new) : RowsKept env s s' := ⟨new, h.ended, h.kept⟩

theorem Grown.later {new : List (QuotaAccess × Except Err (Option UserQuota))}
    (h : Grown env rows s) (hserved : ∀ e ∈ s.ended, Served env s.rows e)
    (hl : Later env s s' new) : Grown env rows s' := by
  constructor
  · intro q' hq'
    rcases hl.added q' hq' with ⟨q, hq, rfl⟩ | ⟨hfresh, hk, hnew⟩
    · obtain ⟨base, rfl, hbase⟩ := h.base q hq
      exact ⟨base, by rw [hl.ended, replay_append], hbase⟩
    · -- nothing was committed for a user without a row
      have hold : replay env s.ended q' = q' := by
        apply replay_of_other
        intro e he hok hu
        obtain ⟨u, hmem, hu'⟩ := (hserved e he).row hok
        exact hk (Option.some.inj (hu'.symm.trans hu) ▸ hmem)
      refine ⟨q', ?_, Or.inr ⟨hfresh, fun hmem => hk (h.users _ hmem)⟩⟩
      rw [hl.ended, replay_append, hold, hnew]
  · intro u hu
    obtain ⟨q, hq, rfl⟩ := List.mem_map.mp (h.users u hu)
    exact List.mem_map.mpr ⟨_, hl.kept q hq, replay_userId new q⟩

theorem statement_consistent {newRow : String → UserQuota} {own own' : Writes UserQuota}
    {others : List (Writes UserQuota)} {c : Cmd} {r : c.Reply}
    (h : Consistent UserQuota.userId rows (own :: others))
    (hs : statement env newRow rows own others c = some (r, own')) :
    Consistent UserQuota.userId rows (own' :: others) := by
  unfold statement at hs
  split at hs
  case h_1 userId =>
    split at hs <;> cases hs <;> exact h
  case h_2 userId =>
    split at hs
    · obtain ⟨w, hw, he⟩ := Option.map_eq_some_iff.mp hs
      cases he
      exact h.insertOrIgnore hw
    · cases hs
      exact h
  case h_3 userId blobSize =>
    split at hs
    · obtain ⟨p, hp, he⟩ := Option.map_eq_some_iff.mp hs
      cases he
      exact h.update (f := (·.charge blobSize)) (fun _ => rfl) hp
    · cases hs
      exact h
  case h_4 userId blobSize =>
    split at hs
    · obtain ⟨p, hp, he⟩ := Option.map_eq_some_iff.mp hs
      cases he
      exact h.update (f := (·.release blobSize)) (fun _ => rfl) hp
    · cases hs
      exact h
  case h_5 => cases hs

theorem next_consistent {newRow : String → UserQuota} {t t' : QuotaTxn}
    {others : List (Writes UserQuota)}
    (h : Consistent UserQuota.userId rows (t.writes :: others))
    (ht : t.next env newRow rows others = some t') :
    Consistent UserQuota.userId rows (t'.writes :: others) := by
  unfold QuotaTxn.next at ht
  split at ht
  · cases ht
  · obtain ⟨p, hp, rfl⟩ := Option.map_eq_some_iff.mp ht
    exact statement_consistent h hp

theorem QuotaInv.cut {pre post : List QuotaTxn} {t : QuotaTxn} (h : QuotaInv env s)
    (hs : s.txns = pre ++ t :: post) :
    Consistent UserQuota.userId s.rows (t.writes :: (pre ++ post).map QuotaTxn.writes) := by
  have hall := h.consistent
  rw [hs, List.map_append, List.map_cons] at hall
  rw [List.map_append]
  exact Consistent.middle.mp hall

/-- What a transaction leaves when it ends. -/
theorem QuotaInv.ends {pre post : List QuotaTxn} {t : QuotaTxn}
    {result : Except Err (Option UserQuota)} (h : QuotaInv env s) (hs : s.txns = pre ++ t :: post)
    (ht : t.rest = .pure result) :
    Later env s { s with
      rows := if result.isOk then view UserQuota.userId s.rows t.writes else s.rows
      txns := pre ++ post
      ended := s.ended ++ [(t.call, result)] } [(t.call, result)] := by
  have hnodup := h.consistent.rows_nodup
  have hview := (h.cut hs).views_nodup t.writes List.mem_cons_self
  have hphase := h.phases t (by rw [hs]; simp)
  -- a transaction ends in one of three ways: refused, with a row found, with a row changed
  cases hphase with
  | opened call => exact absurd ht (transaction_ne_pure call result)
  | missing => cases ht
  | inserted => cases ht
  | refused call he w =>
    cases ht
    exact ⟨rfl, fun q hq => hq, fun q hq => Or.inl ⟨q, hq, rfl⟩⟩
  | @found userId u l row hu hfresh hrow =>
    cases ht
    have hrows : view UserQuota.userId s.rows ⟨l, []⟩ = s.rows ++ l := by
      show s.rows.map id ++ l = _
      rw [List.map_id]
    have hreplay (q : UserQuota) :
        replay env [(.getOrCreateQuota userId, .ok (some row))] q = q := ite_self q
    refine ⟨rfl, fun q hq => ?_, fun q hq => ?_⟩
    · rw [hreplay]
      show q ∈ view UserQuota.userId s.rows ⟨l, []⟩
      rw [hrows]
      exact List.mem_append_left _ hq
    · replace hq : q ∈ view UserQuota.userId s.rows ⟨l, []⟩ := hq
      rw [hrows] at hq
      rcases List.mem_append.mp hq with hq | hq
      · exact Or.inl ⟨q, hq, (hreplay q).symm⟩
      · -- a row that the transaction has inserted is the only one with its key
        rw [map_key_view] at hview
        refine Or.inr ⟨hfresh q hq, fun hmem => ?_, hreplay q⟩
        exact (List.nodup_append.mp hview).2.2 _ hmem _ (List.mem_map_of_mem hq) rfl
  | @changed call q hu hq =>
    cases ht
    have hrows := view_update hnodup hq call.change_userId
    -- the update that is committed is what the call alone would do
    have hreplay : ∀ q' ∈ s.rows, (if q'.userId = q.userId then call.change q' else q') =
        replay env [(call, .ok none)] q' := by
      intro q' _
      show _ = if _ ∧ env.uuidIn call.userId = some q'.userId then call.change q' else q'
      rw [hu]
      by_cases hk : q'.userId = q.userId
      · rw [if_pos hk, if_pos ⟨rfl, by rw [hk]⟩]
      · rw [if_neg hk, if_neg fun ha => hk (Option.some.inj ha.2).symm]
    refine ⟨rfl, fun q' hq' => ?_, fun q' hq' => ?_⟩
    · show _ ∈ view UserQuota.userId s.rows ⟨[], [call.change q]⟩
      rw [hrows, ← hreplay q' hq']
      exact List.mem_map.mpr ⟨q', hq', rfl⟩
    · replace hq' : q' ∈ view UserQuota.userId s.rows ⟨[], [call.change q]⟩ := hq'
      rw [hrows] at hq'
      obtain ⟨q₀, hq₀, rfl⟩ := List.mem_map.mp hq'
      exact Or.inl ⟨q₀, hq₀, hreplay q₀ hq₀⟩

theorem QuotaPhase.served {t : QuotaTxn} {result : Except Err (Option UserQuota)}
    (h : QuotaPhase env rows t) (ht : t.rest = .pure result) :
    Served env (if result.isOk then view UserQuota.userId rows t.writes else rows)
      (t.call, result) := by
  cases h with
  | opened call => exact absurd ht (transaction_ne_pure call result)
  | missing => cases ht
  | inserted => cases ht
  | found row hu hfresh hrow =>
    cases ht
    exact ⟨by simp, fun _ => ⟨_, hrow, hu⟩⟩
  | changed hu hq =>
    cases ht
    exact ⟨by simp, fun _ => ⟨_, mem_keys_view (List.mem_map_of_mem hq), hu⟩⟩
  | refused call he w =>
    cases ht
    refine ⟨fun userId hn => he userId (Except.error.inj hn), fun hok => ?_⟩
    exact absurd hok (by simp [Except.isOk, Except.toBool])

theorem Served.mono {rows' : List UserQuota} {e : QuotaAccess × Except Err (Option UserQuota)}
    (h : Served env rows e)
    (hrows : ∀ u ∈ rows.map UserQuota.userId, u ∈ rows'.map UserQuota.userId) :
    Served env rows' e := by
  refine ⟨h.fetched, fun hok => ?_⟩
  obtain ⟨u, hmem, hu⟩ := h.row hok
  exact ⟨u, hrows u hmem, hu⟩

theorem newRow_fresh (u : String) : (s.newRow env u).Fresh ∧ (s.newRow env u).userId = u :=
  ⟨⟨rfl, rfl, rfl⟩, rfl⟩

theorem QuotaInv.begun (h : QuotaInv env s) (call : QuotaAccess) :
    QuotaInv env { s with txns := ⟨call, call.transaction.run, Writes.empty⟩ :: s.txns } where
  consistent := h.consistent.begin
  phases t ht := by
    rcases List.mem_cons.mp ht with rfl | ht
    · exact .opened call
    · exact h.phases t ht
  served := h.served

theorem QuotaInv.stated {pre post : List QuotaTxn} {t t' : QuotaTxn} (h : QuotaInv env s)
    (hs : s.txns = pre ++ t :: post)
    (ht : t.next env (s.newRow env) s.rows ((pre ++ post).map QuotaTxn.writes) = some t') :
    QuotaInv env { s with txns := pre ++ t' :: post, drawn := s.drawn + 1 } where
  consistent := by
    have hnext := next_consistent (h.cut hs) ht
    show Consistent UserQuota.userId s.rows ((pre ++ t' :: post).map QuotaTxn.writes)
    rw [List.map_append] at hnext
    rw [List.map_append, List.map_cons]
    exact Consistent.middle.mpr hnext
  phases t₁ ht₁ := by
    have hold (t₁ : QuotaTxn) (hmem : t₁ ∈ pre ++ t :: post) : QuotaPhase env s.rows t₁ :=
      h.phases t₁ (hs ▸ hmem)
    rcases List.mem_append.mp ht₁ with hm | hm
    · exact hold t₁ (List.mem_append_left _ hm)
    · rcases List.mem_cons.mp hm with rfl | hm
      · exact (hold t (by simp)).next h.consistent.rows_nodup newRow_fresh ht
      · exact hold t₁ (by simp [hm])
  served := h.served

theorem QuotaInv.finished {pre post : List QuotaTxn} {t : QuotaTxn}
    {result : Except Err (Option UserQuota)} (h : QuotaInv env s) (hs : s.txns = pre ++ t :: post)
    (ht : t.rest = .pure result) : QuotaInv env { s with
      rows := if result.isOk then view UserQuota.userId s.rows t.writes else s.rows
      txns := pre ++ post
      ended := s.ended ++ [(t.call, result)] } := by
  have hcut := h.cut hs
  have hphase (t₁ : QuotaTxn) (hmem : t₁ ∈ pre ++ post) : QuotaPhase env s.rows t₁ := by
    apply h.phases
    rw [hs]
    exact List.perm_middle.mem_iff.mpr (List.mem_cons_of_mem t hmem)
  have hkeys : ∀ u ∈ s.rows.map UserQuota.userId,
      u ∈ (if result.isOk then view UserQuota.userId s.rows t.writes else s.rows).map
        UserQuota.userId := by
    intro u hu
    split
    · exact mem_keys_view hu
    · exact hu
  constructor
  · show Consistent UserQuota.userId (if result.isOk then _ else _) _
    split
    · exact hcut.commit
    · exact hcut.rollback
  · intro t₁ ht₁
    show QuotaPhase env (if result.isOk then _ else _) t₁
    split
    · apply (hphase t₁ ht₁).committed fun u hu => mem_keys_view hu
      intro q _ hl
      exact hcut.version_of_locked (List.mem_map_of_mem ht₁) hl
    · exact hphase t₁ ht₁
  · intro e he
    rcases List.mem_append.mp he with he | he
    · exact (h.served e he).mono hkeys
    · rw [List.mem_singleton.mp he]
      exact (h.phases t (by rw [hs]; simp)).served ht

theorem QuotaInv.aborted {pre post : List QuotaTxn} {t : QuotaTxn} (h : QuotaInv env s)
    (hs : s.txns = pre ++ t :: post) : QuotaInv env { s with txns := pre ++ post } where
  consistent := (h.cut hs).rollback
  phases t₁ ht₁ := by
    apply h.phases
    rw [hs]
    exact List.perm_middle.mem_iff.mpr (List.mem_cons_of_mem t ht₁)
  served := h.served

/-- One step keeps the invariant, and commits at most the change of one call. -/
theorem QuotaInv.step (h : QuotaInv env s) (hstep : QuotaDb.Steps env s s') :
    QuotaInv env s' ∧ ∃ new, Later env s s' new := by
  cases hstep with
  | begun call => exact ⟨h.begun call, [], .of_rows rfl rfl⟩
  | stated hs ht => exact ⟨h.stated hs ht, [], .of_rows rfl rfl⟩
  | finished hs ht => exact ⟨h.finished hs ht, _, h.ends hs ht⟩
  | aborted hs => exact ⟨h.aborted hs, [], .of_rows rfl rfl⟩
  | ticked ms => exact ⟨⟨h.consistent, h.phases, h.served⟩, [], .of_rows rfl rfl⟩

theorem QuotaInv.play (h : QuotaInv env s) (hg : Grown env rows s) (events : List QuotaEvent)
    (hplay : s.play env events = some s') :
    QuotaInv env s' ∧ Grown env rows s' ∧ RowsKept env s s' := by
  induction events generalizing s with
  | nil =>
    cases hplay
    exact ⟨h, hg, RowsKept.refl _⟩
  | cons e events ih =>
    obtain ⟨s₁, hs₁, hplay⟩ := Option.bind_eq_some_iff.mp hplay
    obtain ⟨hinv, new, hl⟩ := h.step (QuotaDb.steps_of_step hs₁)
    obtain ⟨hinv', hg', hk⟩ := ih hinv (hg.later h.served hl) hplay
    exact ⟨hinv', hg', hl.rowsKept.trans hk⟩

theorem quotaInv_start (now : ℤ) (drawn : ℕ) (h : (rows.map UserQuota.userId).Nodup) :
    QuotaInv env (QuotaDb.start now drawn rows) where
  consistent := .of_nodup h
  phases _ ht := absurd ht List.not_mem_nil
  served _ he := absurd he List.not_mem_nil

theorem grown_start (now : ℤ) (drawn : ℕ) : Grown env rows (QuotaDb.start now drawn rows) where
  base q hq := ⟨q, rfl, Or.inl hq⟩
  users _ hu := hu

end Runs

/-- Any number of transactions, in any order of their statements, commits and rollbacks: a user
has at most one row, and one after the first `getOrCreateQuota` that ends well; none ends without a
row; and every row is a row of the start, or a new one for a user who had none, with exactly the
charges and releases that were committed. -/
theorem first_access_one_row (env : Env) (now : Int) (drawn : ℕ) (rows : List UserQuota)
    (hrows : (rows.map UserQuota.userId).Nodup) (events : List QuotaEvent) (s : QuotaDb)
    (hplay : (QuotaDb.start now drawn rows).play env events = some s) :
    (∀ u, (s.rows.filter fun q => q.userId = u).length ≤ 1) ∧
    (∀ userId u row, (.getOrCreateQuota userId, .ok row) ∈ s.ended → env.uuidIn userId = some u →
      (s.rows.filter fun q => q.userId = u).length = 1) ∧
    (∀ e ∈ s.ended, ∀ userId, e.2 ≠ .error (failedToFetch userId)) ∧
    (∀ q ∈ s.rows, ∃ base, q = replay env s.ended base ∧
      (base ∈ rows ∨ base.Fresh ∧ base.userId ∉ rows.map UserQuota.userId)) ∧
    ∀ events' s', s.play env events' = some s' → RowsKept env s s' := by
  obtain ⟨hinv, hg, -⟩ := (quotaInv_start now drawn hrows).play (grown_start now drawn) events hplay
  have hone (u : String) (hu : u ∈ s.rows.map UserQuota.userId) :
      (s.rows.filter fun q => q.userId = u).length = 1 := by
    obtain ⟨q, hq, rfl⟩ := List.mem_map.mp hu
    rw [filter_key hinv.consistent.rows_nodup hq]
    rfl
  refine ⟨fun u => ?_, fun userId u row he hu => ?_, fun e he => (hinv.served e he).fetched,
    hg.base, fun events' s' hplay' => (hinv.play hg events' hplay').2.2⟩
  · by_cases hu : u ∈ s.rows.map UserQuota.userId
    · exact (hone u hu).le
    · have hnil : (s.rows.filter fun q => q.userId = u) = [] := by
        apply List.filter_eq_nil_iff.mpr
        intro q hq hk
        exact hu (of_decide_eq_true hk ▸ List.mem_map_of_mem hq)
      rw [hnil]
      exact Nat.zero_le 1
  · obtain ⟨u', hmem, hu'⟩ := (hinv.served _ he).row rfl
    obtain rfl := Option.some.inj (hu.symm.trans hu')
    exact hone u hmem

/-- Two first accesses: both SELECTs find no row, and the second INSERT comes after the first commit.
An upload is charged afterwards. -/
def twoFirstAccesses : List QuotaEvent :=
  [.begin (.getOrCreateQuota (exampleId 7)), .begin (.getOrCreateQuota (exampleId 7)),
    .statement 1, .statement 0, .statement 1, .statement 1, .finish 1,
    .statement 0, .statement 0, .finish 0,
    .begin (.recordUpload (exampleId 7) 5), .statement 0, .finish 0]

theorem first_access_one_row_twice : ∃ s,
    (QuotaDb.start 0 0 []).play exampleEnv twoFirstAccesses = some s ∧
    s.rows.map (·.storageUsed) = [5] ∧ (∀ u, (s.rows.filter fun q => q.userId = u).length ≤ 1) ∧
    ∀ e ∈ s.ended, ∀ userId, e.2 ≠ .error (failedToFetch userId) := by
  have hplays : ((QuotaDb.start 0 0 []).play exampleEnv twoFirstAccesses).map
      (fun s => s.rows.map (·.storageUsed)) = some [5] := by
    decide +kernel
  obtain ⟨s, hs, hused⟩ := Option.map_eq_some_iff.mp hplays
  have hall := first_access_one_row exampleEnv 0 0 [] List.nodup_nil twoFirstAccesses s hs
  exact ⟨s, hs, hused, hall.1, hall.2.2.1⟩

end WhisprMedia
