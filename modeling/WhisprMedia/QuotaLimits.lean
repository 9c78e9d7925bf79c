import WhisprMedia.QuotaCache
import WhisprMedia.QuotaConservation
import WhisprMedia.SerialDeletes

/-! The limits of a quota row against uploads that run side by side. The check reads a quota, from
the cache or from the row, and the charge comes after the whole upload. An upload that the check has
let through reserves its size until it is charged or has ended; the limits hold as long as every
upload that is let through finds room beside what is reserved. -/
namespace WhisprMedia
open Awaiting MediaService QuotaService Keyed

/-- What an upload of the user has reserved. -/
structure Admission where
  /-- The request is an upload of the user. -/
  mine : Bool
  size : ℕ
  admitted : Bool
  deriving DecidableEq

namespace Admission

/-- The check lets the upload through if the quota it has read leaves room for it. -/
def checked (g : Admission) (q : UserQuota) : Admission :=
  if g.mine && (exceeded q g.size).isNone then { g with admitted := true } else g

def settle (g : Admission) : Admission := { g with admitted := false }

/-- A read of the quota may let the upload through; the charge settles it, and so does the return of
the slot. -/
def next (g : Admission) (c : Cmd) (r : c.Reply) : Admission :=
  match c, r with
  | .getQuota _, .ok (some entry) =>
    match ofCached entry with
    | .ok q => g.checked q
    | .error _ => g
  | .findQuota _, .ok (some q) => g.checked q
  | .chargeQuota _ _, _ => g.settle
  | .decr _, _ => g.settle
  | _, _ => g

/-- Bytes and uploads. -/
def reserved (g : Admission) : ℕ × ℕ := if g.admitted then (g.size, 1) else 0

end Admission

/-- The size of an upload. -/
def Call.uploadSize : Call → ℕ
  | .upload _ file _ _ _ => file.size
  | _ => 0

/-- The user of an upload. -/
def Call.uploadUser? : Call → Option String
  | .upload ownerId _ _ _ _ => some ownerId
  | _ => none

def admissions (env : Env) (userId : String) :
    Account Cmd Cmd.Reply Call Admission (ℕ × ℕ) where
  start x := ⟨x.uploadUser?.bind env.uuidIn = some userId, x.uploadSize, false⟩
  next := Admission.next
  value := Admission.reserved

/-- The row has room for uploads of so many bytes. -/
def UserQuota.RoomFor (q : UserQuota) (m : ℕ × ℕ) : Prop :=
  q.storageUsed + m.1 ≤ q.storageLimit ∧ q.filesCount + m.2 ≤ q.filesLimit ∧
    q.dailyUploads + m.2 ≤ q.dailyUploadLimit

instance (q : UserQuota) (m : ℕ × ℕ) : Decidable (q.RoomFor m) :=
  inferInstanceAs (Decidable (_ ∧ _))

structure UserQuota.NonNeg (q : UserQuota) : Prop where
  storageUsed : 0 ≤ q.storageUsed
  filesCount : 0 ≤ q.filesCount
  dailyUploads : 0 ≤ q.dailyUploads

/-- The user has a row, and it has room for what is reserved. -/
structure RoomInv (userId : String) (w : World) (m : ℕ × ℕ) : Prop where
  row : ∃ q, w.quotas.get userId = some q ∧ q.NonNeg ∧ q.RoomFor m

/-- The quota that a command reads. -/
def quotaRead (env : Env) (w : World) : Cmd → Option UserQuota
  | .getQuota key => (w.quotaCache key).bind fun entry => (ofCached entry).toOption
  | .findQuota s => (env.uuidIn s).bind w.quotas.get
  | _ => none

/-- An upload of the user that a read lets through finds room in the row, beside the uploads that
were let through before and are still to be charged. -/
def AdmitsWithRoom (env : Env) (userId : String) (w : World) (m : ℕ × ℕ) (g : Admission) (c : Cmd) :
    Prop :=
  ∀ q ∈ quotaRead env w c, g.mine = true → exceeded q g.size = none →
    ∀ row ∈ w.quotas.get userId, row.RoomFor (m + (g.size, 1))

instance (env : Env) (userId : String) (w : World) (m : ℕ × ℕ) (g : Admission) (c : Cmd) :
    Decidable (AdmitsWithRoom env userId w m g c) :=
  inferInstanceAs (Decidable (∀ q ∈ quotaRead env w c, g.mine = true → exceeded q g.size = none →
    ∀ row ∈ w.quotas.get userId, row.RoomFor (m + (g.size, 1))))

def roomDiscipline (env : Env) (userId : String) :
    Discipline (service env) Admission (ℕ × ℕ) where
  toAccount := admissions env userId
  inv := RoomInv userId
  rely _ _ _ _ := True
  may := AdmitsWithRoom env userId
  rely_refl _ _ := trivial
  rely_trans _ _ := trivial

section Commands
variable {env : Env} {userId : String} {c : Cmd} {w : World} {m m' : ℕ × ℕ} {g : Admission}

theorem UserQuota.RoomFor.mono {q : UserQuota} (h : q.RoomFor m) (hm : m' ≤ m) : q.RoomFor m' := by
  obtain ⟨hs, hf, hd⟩ := h
  have h1 : (m'.1 : ℤ) ≤ m.1 := by exact_mod_cast hm.1
  have h2 : (m'.2 : ℤ) ≤ m.2 := by exact_mod_cast hm.2
  exact ⟨by omega, by omega, by omega⟩

theorem RoomInv.mono (h : RoomInv userId w m) (hm : m' ≤ m) : RoomInv userId w m' := by
  obtain ⟨q, hq, hn, hroom⟩ := h.row
  exact ⟨q, hq, hn, hroom.mono hm⟩

/-- The commands that do not charge the user. -/
def Harmless (env : Env) (userId : String) (c : Cmd) : Prop :=
  ¬ WritesQuota env userId c ∨ c = .resetDailyUploads ∨ ∃ s, ∃ n : ℕ, c = .releaseQuota s n

/-- A row that turns into another one that has room too. -/
theorem RoomInv.modify {w' : World} {f : UserQuota → UserQuota} (h : RoomInv userId w m)
    (hw : w'.quotas.get userId = (w.quotas.get userId).map f)
    (hf : ∀ q, q.NonNeg → q.RoomFor m → (f q).NonNeg ∧ (f q).RoomFor m') :
    RoomInv userId w' m' := by
  obtain ⟨q, hq, hn, hroom⟩ := h.row
  obtain ⟨hn', hroom'⟩ := hf q hn hroom
  exact ⟨f q, by rw [hw, hq]; rfl, hn', hroom'⟩

theorem roomFor_release {q : UserQuota} (n : ℕ) (hn : q.NonNeg) (h : q.RoomFor m) :
    (q.release n).NonNeg ∧ (q.release n).RoomFor m := by
  obtain ⟨hs, hf, hd⟩ := h
  have hused := hn.storageUsed
  have hfiles := hn.filesCount
  refine ⟨⟨?_, ?_, hn.dailyUploads⟩, ?_, ?_, hd⟩
  · show 0 ≤ max 0 (q.storageUsed - (n : ℤ))
    omega
  · show 0 ≤ max 0 (q.filesCount - 1)
    omega
  · show max 0 (q.storageUsed - (n : ℤ)) + (m.1 : ℤ) ≤ q.storageLimit
    omega
  · show max 0 (q.filesCount - 1) + (m.2 : ℤ) ≤ q.filesLimit
    omega

/-- A reset and a release only make room. -/
theorem roomInv_exec (hc : Harmless env userId c) (h : RoomInv userId w m) :
    RoomInv userId (env.exec c w).2 m := by
  obtain ⟨q, hq, hn, hroom⟩ := h.row
  constructor
  generalize hr : (env.exec c w).2.quotas.get userId = r
  cases quota_step hr with
  | kept same => exact ⟨q, same.symm.trans hq, hn, hroom⟩
  | inserted cmd user missing => exact absurd (hq.symm.trans missing) (by simp)
  | charged cmd user =>
    -- the one command that takes room is not harmless
    rcases hc with hc | rfl | ⟨s, n, rfl⟩
    · exact absurd (Or.inr (by rw [cmd]; exact user)) hc
    · cases cmd
    · cases cmd
  | released cmd user old =>
    obtain rfl := Option.some.inj (hq.symm.trans old)
    rcases hc with hc | rfl | ⟨s, n, rfl⟩
    · exact absurd (Or.inr (by rw [cmd]; exact user)) hc
    · cases cmd
    · cases cmd
      exact ⟨_, rfl, roomFor_release n hn hroom⟩
  | reset cmd old =>
    -- the day's uploads start again from 0
    obtain rfl := Option.some.inj (hq.symm.trans old)
    obtain ⟨hs, hf, hd⟩ := hroom
    have hdaily := hn.dailyUploads
    refine ⟨_, rfl, ⟨hn.storageUsed, hn.filesCount, ?_⟩, hs, hf, ?_⟩
    · show (0 : ℤ) ≤ 0
      omega
    · show (0 : ℤ) + (m.2 : ℤ) ≤ q.dailyUploadLimit
      omega

theorem neutral_room (hc : Harmless env userId c) (hn : ∀ r, Admission.next g c r = g) :
    (roomDiscipline env userId).Neutral g c := by
  intro w f hi _
  exact ⟨hn _, roomInv_exec hc hi, trivial⟩

/-- The families that a reservation follows. -/
def Family.movesAdmission : Family → Bool
  | .semaphore | .quotaCache | .quotaLookup | .quotaCharge => true
  | _ => false

theorem next_of_family (h : c.family.movesAdmission = false) (r : c.Reply) :
    Admission.next g c r = g := by
  cases c <;> first | rfl | simp [Cmd.family, Family.movesAdmission] at h

theorem quiet_room {F : List Family}
    (hF : ∀ f ∈ F, f.movesAdmission = false ∧ f.writesQuota = false) :
    ∀ c : Cmd, c.family ∈ F → (roomDiscipline env userId).Neutral g c := by
  intro c hc
  obtain ⟨hmoves, hwrites⟩ := hF _ hc
  exact neutral_room (Or.inl (not_writesQuota_of_family hwrites)) (next_of_family hmoves)

theorem settle_of_idle (ha : g.admitted = false) : g.settle = g := by
  obtain ⟨mine, size, admitted⟩ := g
  obtain rfl : admitted = false := ha
  rfl

/-- Nothing is reserved, and so the return of a slot settles nothing. -/
theorem semaphore_room (ha : g.admitted = false) :
    ∀ c : Cmd, c.family ∈ [Family.semaphore] → (roomDiscipline env userId).Neutral g c := by
  intro c hc
  have hf : c.family = .semaphore := by simpa using hc
  refine neutral_room (Or.inl (not_writesQuota_of_family (by rw [hf]; rfl))) fun r => ?_
  cases c <;> first | rfl | exact settle_of_idle ha | simp [Cmd.family] at hf

/-- A request that is no upload of the user never reserves anything. -/
theorem stranger_room (hm : g.mine = false) (ha : g.admitted = false)
    (hc : Harmless env userId c) : (roomDiscipline env userId).Neutral g c := by
  have hchecked (q : UserQuota) : g.checked q = g := by
    unfold Admission.checked
    rw [hm]
    rfl
  refine neutral_room hc fun r => ?_
  unfold Admission.next
  split
  · split
    · exact hchecked _
    · rfl
  · exact hchecked _
  · exact settle_of_idle ha
  · exact settle_of_idle ha
  · rfl

end Commands

/-! The check of the quota -/

section Bodies
variable {env : Env} {userId s : String} {w : World} {m : ℕ × ℕ} {g : Admission}

/-- An upload that is let through finds the room that it reserves. -/
theorem checked_room {c : Cmd} {q : UserQuota} {f : ℕ × ℕ} (ha : g.admitted = false)
    (hq : q ∈ quotaRead env w c) (hi : RoomInv userId w (g.reserved + f))
    (hm : AdmitsWithRoom env userId w (g.reserved + f) g c) :
    RoomInv userId w ((g.checked q).reserved + f) := by
  unfold Admission.checked
  split
  · next hcond =>
    rw [Bool.and_eq_true, Option.isNone_iff_eq_none] at hcond
    obtain ⟨row, hrow, hn, -⟩ := hi.row
    have hroom := hm q hq hcond.1 hcond.2 row hrow
    have hzero : g.reserved = 0 := by simp [Admission.reserved, ha]
    rw [hzero, zero_add, add_comm] at hroom
    exact ⟨row, hrow, hn, hroom⟩
  · exact hi

theorem getQuota_room (ha : g.admitted = false) (key : String) :
    (roomDiscipline env userId).Keeps (await (.getQuota key)) g w m
      (fun r g' _ _ => g' = Admission.next g (.getQuota key) (.ok r))
      (fun _ g' _ _ => g' = g) := by
  refine keeps_await fun w' f r u _ hi hm he => ?_
  obtain ⟨rfl, rfl⟩ := Prod.mk.inj he
  refine ⟨?_, trivial, fun _ _ _ _ => rfl⟩
  show RoomInv userId w' ((Admission.next g (.getQuota key) (.ok (w'.quotaCache key))).reserved + f)
  cases hentry : w'.quotaCache key with
  | none => exact hi
  | some entry =>
    cases hread : ofCached entry with
    | error e =>
      simp only [Admission.next, hread]
      exact hi
    | ok q =>
      simp only [Admission.next, hread]
      refine checked_room ha ?_ hi hm
      simp [quotaRead, hentry, hread, Except.toOption]

theorem findQuota_room (ha : g.admitted = false) (s : String) :
    (roomDiscipline env userId).Keeps (await (.findQuota s)) g w m
      (fun r g' _ _ => g' = Admission.next g (.findQuota s) (.ok r))
      (fun _ g' _ _ => g' = g) := by
  refine keeps_await fun w' f r u _ hi hm he => ?_
  cases hs : env.uuidIn s with
  | none =>
    simp only [Env.exec, hs] at he
    obtain ⟨rfl, rfl⟩ := Prod.mk.inj he
    exact ⟨hi, trivial, fun _ _ _ _ => rfl⟩
  | some v =>
    simp only [Env.exec, hs] at he
    obtain ⟨rfl, rfl⟩ := Prod.mk.inj he
    refine ⟨?_, trivial, fun _ _ _ _ => rfl⟩
    show RoomInv userId w'
      ((Admission.next g (.findQuota s) (.ok (w'.quotas.get v))).reserved + f)
    cases hrow : w'.quotas.get v with
    | none => exact hi
    | some q =>
      refine checked_room ha ?_ hi hm
      simp [quotaRead, hs, hrow]

/-- The reservation stands as it began. -/
abbrev Standing {α : Type} (g : Admission) : α → Admission → World → ℕ × ℕ → Prop :=
  fun _ g' _ _ => g' = g

/-- Nothing is asked of the reservation any more. -/
abbrev Anyhow {α : Type} : α → Admission → World → ℕ × ℕ → Prop := fun _ _ _ _ => True

theorem findOrInsertRow_room (ha : g.admitted = false) (s : String) :
    (roomDiscipline env userId).Keeps (findOrInsertRow s) g w m
      (fun q g' _ _ => g' = g.checked q) (Standing g) := by
  refine Discipline.Keeps.bind (findQuota_room ha s) fun r g' w₁ m₁ hi₁ h => ?_
  cases r with
  | some row => exact Discipline.keeps_pure h
  | none =>
    obtain rfl : g' = g := h.now hi₁
    have hinsert : (roomDiscipline env userId).Neutral g' (.insertQuotaOrIgnore s) :=
      neutral_room (Or.inl (not_writesQuota_of_family rfl)) fun _ => rfl
    refine Discipline.Keeps.bind ((keeps_await_neutral hinsert).mono (fun _ _ _ _ _ h => h.1)
      fun _ _ _ _ _ h => h.1) fun _ g₂ w₂ m₂ hi₂ h₂ => ?_
    obtain rfl := h₂.now hi₂
    refine Discipline.Keeps.bind (findQuota_room ha s) fun r g₃ w₃ m₃ hi₃ h₃ => ?_
    cases r with
    | some row => exact Discipline.keeps_pure h₃
    | none => exact Discipline.keeps_throw h₃

theorem getOrCreateQuota_room (ha : g.admitted = false) (s : String) :
    (roomDiscipline env userId).Keeps (getOrCreateQuota s) g w m
      (fun q g' _ _ => g' = g.checked q) (Standing g) := by
  refine Discipline.Keeps.bind (Discipline.Keeps.tryCatch (getQuota_room ha (cacheKey s))
    fun e g' w₁ m₁ hi₁ h => ?_) fun r g' w₁ m₁ hi₁ h => ?_
  · -- a failed read is a miss
    obtain rfl := h.now hi₁
    exact Discipline.keeps_pure fun _ _ _ _ => rfl
  · cases r with
    | some entry =>
      refine keeps_sync (fun q hq u n hr hi => ?_) fun e he u n hr hi => ?_
      · have hg := h u n hr hi
        simpa only [Admission.next, hq] using hg
      · have hg := h u n hr hi
        simpa only [Admission.next, he] using hg
    | none =>
      obtain rfl : g' = g := h.now hi₁
      refine Discipline.Keeps.bind (findOrInsertRow_room ha s) fun q g₂ w₂ m₂ hi₂ h₂ => ?_
      obtain rfl := h₂.now hi₂
      have hset : (roomDiscipline env userId).Neutral (g'.checked q)
          (.setQuota (cacheKey s) (toCached q) QUOTA_CACHE_TTL_MS) :=
        quiet_room (F := [.quotaFill]) (by decide) _ (by simp [Cmd.family])
      refine Discipline.Keeps.bind (keeps_quietly hset) fun _ g₃ w₃ m₃ hi₃ h₃ => ?_
      obtain ⟨rfl, -⟩ := h₃.now hi₃
      exact Discipline.keeps_pure fun _ _ _ _ => rfl

/-- An upload that passes the check has reserved its size. -/
theorem enforceQuota_room (ha : g.admitted = false) (s : String) (hg : n = g.size) :
    (roomDiscipline env userId).Keeps (enforceQuota s (.int n)) g w m
      (fun _ g' _ _ => g' = { g with admitted := g.mine }) (Standing g) := by
  subst hg
  have hcheck : (roomDiscipline env userId).Keeps (checkQuota s (.int g.size)) g w m
      (fun result g' _ _ => ∃ q, result = checkResult q g.size ∧ g' = g.checked q)
      (Standing g) := by
    refine keeps_sync_bind (fun _ _ _ _ _ _ => rfl) fun _ _ => ?_
    refine Discipline.Keeps.bind (getOrCreateQuota_room ha s) fun q g' w₁ m₁ hi₁ h => ?_
    exact Discipline.keeps_pure fun u n hr hi => ⟨q, rfl, h u n hr hi⟩
  refine Discipline.Keeps.bind hcheck fun result g' w₁ m₁ hi₁ h => ?_
  obtain ⟨q, rfl, rfl⟩ := h.now hi₁
  unfold Admission.checked
  cases hx : exceeded q g.size with
  | none =>
    -- the check has passed
    have hg : (if g.mine && (none : Option String).isNone then { g with admitted := true } else g) =
        { g with admitted := g.mine } := by
      obtain ⟨mine, size, admitted⟩ := g
      obtain rfl : admitted = false := ha
      cases mine <;> rfl
    rw [hg]
    exact keeps_sync (fun _ _ _ _ _ _ => rfl) fun _ he => by
      simp [checkResult, hx, throwIf] at he
  | some reason =>
    have hg : (if g.mine && (some reason).isNone then { g with admitted := true } else g) = g := by
      simp
    rw [hg]
    refine keeps_sync (fun _ hok => ?_) fun _ _ _ _ _ _ => rfl
    simp [checkResult, hx, throwIf] at hok

/-! The charge, and the rest of an upload -/

theorem settled_room {f : ℕ × ℕ} (h : RoomInv userId w (g.reserved + f)) :
    RoomInv userId w (g.settle.reserved + f) := by
  refine h.mono ?_
  have hzero : g.settle.reserved = 0 := rfl
  rw [hzero, zero_add]
  exact ⟨Nat.le_add_left _ _, Nat.le_add_left _ _⟩

/-- The request is an upload for the user if its user is. -/
def UploadsFor (env : Env) (userId s : String) (g : Admission) : Prop :=
  g.mine = true ↔ env.uuidIn s = some userId

/-- The charge takes what was reserved for it. -/
theorem chargeQuota_room (hw : UploadsFor env userId s g) (ha : g.admitted = g.mine) :
    (roomDiscipline env userId).Keeps (await (.chargeQuota s (g.size : ℤ))) g w m
      Anyhow Anyhow := by
  refine keeps_await fun w' f r u _ hi _ he => ?_
  have hi' : RoomInv userId w' (g.reserved + f) := hi
  show RoomInv userId u (g.settle.reserved + f) ∧ _
  refine ⟨?_, trivial, fun _ _ _ _ => by cases r <;> trivial⟩
  cases hs : env.uuidIn s with
  | none =>
    simp only [Env.exec, hs] at he
    obtain ⟨-, rfl⟩ := Prod.mk.inj he
    exact settled_room hi'
  | some v =>
    rw [exec_chargeQuota hs] at he
    obtain ⟨-, rfl⟩ := Prod.mk.inj he
    by_cases hv : userId = v
    · subst hv
      have hmine : g.mine = true := hw.mpr hs
      have hres : g.reserved = (g.size, 1) := by
        unfold Admission.reserved
        rw [ha, hmine]
        rfl
      rw [hres] at hi'
      refine hi'.modify (by rw [get_chargeRow, if_pos rfl]) fun q hn hroom => ?_
      -- what was reserved is now in the row
      obtain ⟨hstorage, hfiles, hdaily⟩ := hroom
      have hn1 := hn.storageUsed
      have hn2 := hn.filesCount
      have hn3 := hn.dailyUploads
      simp only [Prod.fst_add, Prod.snd_add, Nat.cast_add, Nat.cast_one] at hstorage hfiles hdaily
      have hfst : (g.settle.reserved + f).1 = f.1 := Nat.zero_add _
      have hsnd : (g.settle.reserved + f).2 = f.2 := Nat.zero_add _
      refine ⟨⟨?_, ?_, ?_⟩, ?_, ?_, ?_⟩
      · show 0 ≤ q.storageUsed + (g.size : ℤ)
        omega
      · show 0 ≤ q.filesCount + 1
        omega
      · show 0 ≤ q.dailyUploads + 1
        omega
      · show q.storageUsed + (g.size : ℤ) + _ ≤ q.storageLimit
        rw [hfst]
        omega
      · show q.filesCount + 1 + _ ≤ q.filesLimit
        rw [hsnd]
        omega
      · show q.dailyUploads + 1 + _ ≤ q.dailyUploadLimit
        rw [hsnd]
        omega
    · obtain ⟨q, hq, hn, hroom⟩ := (settled_room hi').row
      refine ⟨q, ?_, hn, hroom⟩
      rw [get_chargeRow, if_neg hv, hq]

theorem recordUpload_room (hw : UploadsFor env userId s g) (ha : g.admitted = g.mine)
    (hn : n = g.size) :
    (roomDiscipline env userId).Keeps (recordUpload s (.int n)) g w m Anyhow Anyhow := by
  subst hn
  refine keeps_sync_bind (fun _ _ _ _ _ _ => trivial) fun _ _ => ?_
  refine Discipline.Keeps.bind (chargeQuota_room hw ha) fun affected g₁ w₁ m₁ hi₁ _ => ?_
  refine keeps_sync_bind (fun _ _ _ _ _ _ => trivial) fun _ _ => ?_
  have hdel : (roomDiscipline env userId).Neutral g₁ (.delQuota (cacheKey s)) :=
    neutral_room (Or.inl (not_writesQuota_of_family rfl)) fun _ => rfl
  refine Discipline.Keeps.bind (keeps_quietly hdel) fun _ g₂ w₂ m₂ hi₂ h₂ => ?_
  obtain ⟨rfl, -⟩ := h₂.now hi₂
  exact keeps_of_touch (F := [.background]) (touches_await (by simp [Cmd.family]))
    (quiet_room (by decide)) (fun _ _ _ _ _ => trivial) fun _ _ _ _ _ => trivial

/-- An upload between the two moves of its slot. -/
theorem uploadHeld_room (hw : UploadsFor env userId s g) (ha : g.admitted = false) (file : File)
    (hsize : file.size = g.size) (context : MediaContext) (thumbnailFile : Option File)
    (sharedWith : Option (List String)) :
    (roomDiscipline env userId).Keeps
      (uploadHeld env s file context thumbnailFile sharedWith) g w m Anyhow Anyhow := by
  unfold uploadHeld
  refine keeps_after_touch (authorizeGroupIconUpload_touches env context s)
    (quiet_room (by decide)) (fun _ _ _ _ _ => trivial) fun _ w₁ m₁ _ _ => ?_
  refine Discipline.Keeps.bind ((enforceQuota_room ha s (congrArg Nat.cast hsize)).mono
    (fun _ _ _ _ _ h => h) fun _ _ _ _ _ _ => trivial) fun _ g₂ w₂ m₂ hi₂ h₂ => ?_
  obtain rfl := h₂.now hi₂
  -- the size stays reserved until the charge
  refine keeps_after_touch (validateFile_touches env file context)
    (quiet_room (by decide)) (fun _ _ _ _ _ => trivial) fun _ w₃ m₃ _ _ => ?_
  refine keeps_after_touch (findDuplicate_touches s _)
    (quiet_room (by decide)) (fun _ _ _ _ _ => trivial) fun duplicate w₄ m₄ _ _ => ?_
  cases duplicate with
  | some existing =>
    refine keeps_after_touch (mergeSharedWith_touches s existing sharedWith)
      (quiet_room (by decide)) (fun _ _ _ _ _ => trivial) fun _ w₅ m₅ _ _ => ?_
    exact keeps_of_touch (buildUploadResponse_touches env existing) (quiet_room (by decide))
      (fun _ _ _ _ _ => trivial) fun _ _ _ _ _ => trivial
  | none =>
    refine keeps_after_touch (storeNew_touches env s file context thumbnailFile sharedWith)
      (quiet_room (by decide)) (fun _ _ _ _ _ => trivial) fun media w₅ m₅ _ _ => ?_
    refine keeps_after_touch (F := [.dedup]) (touches_await (by simp [Cmd.family]))
      (quiet_room (by decide)) (fun _ _ _ _ _ => trivial) fun _ w₆ m₆ _ _ => ?_
    refine Discipline.Keeps.bind (recordUpload_room hw rfl (congrArg Nat.cast hsize))
      fun _ g₇ w₇ m₇ _ _ => ?_
    exact keeps_of_touch (buildUploadResponse_touches env media) (quiet_room (by decide))
      (fun _ _ _ _ _ => trivial) fun _ _ _ _ _ => trivial

/-- Anyhow an upload still has reserved goes back with its slot. -/
theorem releaseSemaphore_room (s : String) :
    (roomDiscipline env userId).Keeps (releaseSemaphore s) g w m Anyhow Anyhow := by
  have hdecr : (roomDiscipline env userId).Keeps (await (.decr (semaphoreKey s))) g w m
      Anyhow Anyhow := by
    refine keeps_await fun w' f r u _ hi _ he => ?_
    have hrow : u.quotas = w'.quotas := by
      obtain ⟨-, rfl⟩ := Prod.mk.inj he
      rfl
    refine ⟨?_, trivial, fun _ _ _ _ => by cases r <;> trivial⟩
    obtain ⟨q, hq, hn, hroom⟩ := (settled_room hi).row
    exact ⟨q, by rw [hrow, hq], hn, hroom⟩
  refine Discipline.Keeps.bind hdecr fun remaining g₁ w₁ m₁ _ _ => ?_
  split
  · have hdel : (roomDiscipline env userId).Neutral g₁ (.del (semaphoreKey s)) :=
      neutral_room (Or.inl (not_writesQuota_of_family rfl)) fun _ => rfl
    exact (keeps_await_neutral hdel).mono (fun _ _ _ _ _ _ => trivial) fun _ _ _ _ _ _ => trivial
  · exact Discipline.keeps_pure fun _ _ _ _ => trivial

theorem upload_room (hw : UploadsFor env userId s g) (ha : g.admitted = false) (file : File)
    (hsize : file.size = g.size) (context : MediaContext) (thumbnailFile : Option File)
    (sharedWith : Option (List String)) :
    (roomDiscipline env userId).Keeps
      (upload env s file context thumbnailFile sharedWith) g w m Anyhow Anyhow := by
  refine keeps_after_touch (acquireSemaphore_touches s) (semaphore_room ha)
    (fun _ _ _ _ _ => trivial) fun _ w₁ m₁ _ _ => ?_
  exact Discipline.Keeps.ensuring
    (uploadHeld_room hw ha file hsize context thumbnailFile sharedWith)
    (fun _ g₂ w₂ m₂ _ _ => releaseSemaphore_room s) fun _ g₂ w₂ m₂ _ _ => releaseSemaphore_room s

/-! The other requests -/

theorem harmless_of_touches {α : Type} {F : List Family} {x : Svc α} (hx : Touches F x)
    (hF : ∀ f ∈ F, f.writesQuota = false) : x.Issues (Harmless env userId) :=
  hx.issues.mono fun _ hc => Or.inl (not_writesQuota_of_family (hF _ hc))

/-- What a delete releases is a size. -/
theorem delete_harmless (id requesterId : String) :
    (delete id requesterId).Issues (Harmless env userId) := by
  have hsync {α : Type} (x : Except Err α) : (sync x).Issues (Harmless env userId) := trivial
  have hrecord (size : ℕ) :
      (recordDelete requesterId (.int size)).Issues (Harmless env userId) := by
    refine (hsync _).bind fun _ => ?_
    refine ProgE.Issues.bind ⟨Or.inr (Or.inr ⟨requesterId, size, rfl⟩), fun _ => trivial⟩
      fun affected => ?_
    exact (hsync _).bind fun _ =>
      harmless_of_touches (invalidateCache_touches requesterId) (by decide)
  have hdrop (key : String) : (await (.delMeta key)).Issues (Harmless env userId) :=
    harmless_of_touches (F := [.metadata]) (touches_await (by simp [Cmd.family])) (by decide)
  have hremove (path : String) : (await (.deleteObject path)).Issues (Harmless env userId) :=
    harmless_of_touches (F := [.bucket]) (touches_await (by simp [Cmd.family])) (by decide)
  refine (harmless_of_touches (findActive_touches id requesterId) (by decide)).bind fun media => ?_
  refine (hsync _).bind fun _ => ?_
  refine ProgE.Issues.bind (harmless_of_touches (F := [.mediaDelete])
    (touches_await (by simp [Cmd.family])) (by decide)) fun _ => ?_
  refine (hremove media.storagePath).bind fun _ => ?_
  split
  · exact (hremove _).bind fun _ => (hdrop _).bind fun _ => hrecord _
  · exact (hdrop _).bind fun _ => hrecord _

theorem handle_room (x : Call) (hx : x.isRequest = true) :
    (roomDiscipline env userId).Keeps (handle env x) ((admissions env userId).start x) w m
      Anyhow Anyhow := by
  have hstranger {x : Call} (h : x.uploadUser? = none)
      (hi : (handle env x).Issues (Harmless env userId)) :
      (roomDiscipline env userId).Keeps (handle env x) ((admissions env userId).start x) w m
        Anyhow Anyhow := by
    refine Discipline.keeps_neutral hi (fun c hc => stranger_room ?_ rfl hc)
      (fun _ _ _ _ _ => trivial) fun _ _ _ _ _ => trivial
    simp [admissions, h]
  cases x with
  | upload ownerId file context thumbnailFile sharedWith =>
    refine Discipline.Keeps.map (upload_room ?_ rfl file rfl context thumbnailFile sharedWith)
      fun _ _ _ _ _ _ => trivial
    exact decide_eq_true_iff
  | delete id requesterId => exact hstranger rfl (delete_harmless id requesterId).map
  | resetDailyUploads =>
    refine hstranger rfl (ProgE.Issues.map (ProgE.Issues.bind ?_ fun userIds => ?_))
    · exact ⟨Or.inr (Or.inl rfl), fun _ => trivial⟩
    · exact harmless_of_touches (invalidateAll_touches userIds) (by decide)
  | recordUpload u n => exact absurd hx (by simp [Call.isRequest])
  | recordDelete u n => exact absurd hx (by simp [Call.isRequest])
  | _ =>
    exact hstranger rfl (harmless_of_touches (handle_touches_of_not_writesQuota env rfl)
      (by decide))

end Bodies

/-! Runs -/

/-- The steps of a run: requests arrive, and an upload of the user that a read lets through finds
room in the row. -/
def RoomAllowed (env : Env) (userId : String) (p : ServicePool) : Label Call Act → Prop
  | .call x => x.isRequest = true
  | .step i => ∀ t ∈ p.threads[i]?, ∀ c ∈ p.nextCmd i,
      AdmitsWithRoom env userId p.world ((admissions env userId).total p)
        ((admissions env userId).of t) c
  | .act _ => True

instance (env : Env) (userId : String) (p : ServicePool) (l : Label Call Act) :
    Decidable (RoomAllowed env userId p l) :=
  match l with
  | .call _ => inferInstanceAs (Decidable (_ = _))
  | .step i => inferInstanceAs (Decidable (∀ t ∈ p.threads[i]?, ∀ c ∈ p.nextCmd i, _))
  | .act _ => inferInstanceAs (Decidable True)

theorem callable_room {env : Env} {userId : String} {x : Call} (hx : x.isRequest = true) :
    (roomDiscipline env userId).Callable (fun _ _ _ _ _ => True) x := by
  refine ⟨rfl, fun w m _ => (handle_room x hx).upholds.mono fun r _ _ _ _ _ => trivial⟩

theorem room_sound (env : Env) (userId : String) : (roomDiscipline env userId).Sound
    (fun _ _ _ _ _ => True) (RoomAllowed env userId) where
  call p x hok := callable_room hok
  fork c x hx := by
    cases c <;> simp only [service, List.not_mem_nil, List.mem_singleton] at hx
    subst hx
    exact callable_room rfl
  act p a m _ hi := by
    obtain ⟨q, hq, hn, hroom⟩ := hi.row
    exact ⟨⟨q, (congrArg (·.get userId) (act_quotas a p.world)).trans hq, hn, hroom⟩, trivial⟩
  step p i x log c k hok ht := hok _ ht c (by simp [Pool.nextCmd, ht])

/-- The row is within its limits. -/
structure UserQuota.Within (q : UserQuota) : Prop where
  storageUsed : q.storageUsed ≤ q.storageLimit
  filesCount : q.filesCount ≤ q.filesLimit
  dailyUploads : q.dailyUploads ≤ q.dailyUploadLimit

/-- As long as every upload of the user that a quota read lets through finds room in the row beside
the uploads let through before it, the limits of the row are kept, however the requests
interleave. -/
theorem quota_limits_kept (env : Env) (userId : String) (w₀ : World) (q₀ : UserQuota)
    (p : ServicePool) (hrow : w₀.quotas.get userId = some q₀) (hn : q₀.NonNeg) (hq : q₀.Within)
    (h : (service env).Runs (RoomAllowed env userId) ⟨w₀, []⟩ p) :
    ∃ q, p.world.quotas.get userId = some q ∧ q.Within := by
  have hstart : (roomDiscipline env userId).inv w₀ 0 := by
    obtain ⟨hs, hf, hd⟩ := hq
    refine ⟨q₀, hrow, hn, ?_, ?_, ?_⟩
    · simpa using hs
    · simpa using hf
    · simpa using hd
  have hp := ((Discipline.holds_of_empty hstart).runs (room_sound env userId) h).1
  obtain ⟨q, hq', -, hs, hf, hd⟩ := hp.inv.row
  exact ⟨q, hq', by omega, by omega, by omega⟩

/-- A user who has stored nothing yet and may store so many bytes. -/
def bytesLeft (limit : ℤ) : UserQuota :=
  ⟨exampleId 1, exampleId 7, 0, limit, 0, DEFAULT_FILES_LIMIT, 0, DEFAULT_DAILY_UPLOAD_LIMIT, 0⟩

def bytesWorld (limit : ℤ) : World :=
  { World.empty with quotas := Table.empty.insert (bytesLeft limit) }

/-- Two uploads of one byte take turns. -/
def sideBySide : List (Label Call Act) :=
  .call (.upload (exampleId 7) oneByte .MESSAGE none none) ::
    .call (.upload (exampleId 7) oneByte .MESSAGE none none) ::
      (List.replicate 17 [.step 0, .step 1]).flatten

/-- There is room for both. -/
theorem quota_limits_kept_side_by_side : ∃ p, (service exampleEnv).play
    (RoomAllowed exampleEnv (exampleId 7)) ⟨bytesWorld 2, []⟩ sideBySide = some p ∧
    ∃ q, p.world.quotas.get (exampleId 7) = some q ∧ q.Within := by
  have hplay : ((service exampleEnv).play (RoomAllowed exampleEnv (exampleId 7))
      ⟨bytesWorld 2, []⟩ sideBySide).isSome = true := by
    decide +kernel
  obtain ⟨p, hp⟩ := Option.isSome_iff_exists.mp hplay
  have hrow : (bytesWorld 2).quotas.get (exampleId 7) = some (bytesLeft 2) := by decide +kernel
  have hn : (bytesLeft 2).NonNeg := ⟨by decide, by decide, by decide⟩
  have hq : (bytesLeft 2).Within := ⟨by decide, by decide, by decide⟩
  exact ⟨p, hp, quota_limits_kept exampleEnv (exampleId 7) (bytesWorld 2) (bytesLeft 2) p hrow hn hq
    (System.runs_of_play hp)⟩

/-! Without that condition, two uploads can share the room for one -/

/-- The uploads of a user that are under way. -/
def uploadsUnderWay (userId : String) (p : ServicePool) : ℕ :=
  p.threads.countP fun t => t.call.uploadUser? = some userId && t.outcome.isNone

/-- Uploads, deletes and resets arrive, and at most three uploads of the user interleave. -/
def limitRequest (userId : String) (p : ServicePool) : Label Call Act → Bool
  | .call (.upload ownerId _ _ _ _) => ownerId ≠ userId || uploadsUnderWay userId p < 3
  | .call (.delete _ _) => true
  | .call .resetDailyUploads => true
  | .call _ => false
  | .step _ => true
  | .act _ => false

/-- Both uploads are checked before either is charged. -/
theorem quota_limits_not_kept :
    ¬ ∀ (env : Env) (userId : String) (w₀ : World) (q₀ : UserQuota) (p : ServicePool),
      w₀.quotas.get userId = some q₀ → q₀.NonNeg → q₀.Within →
      (service env).Runs (fun p l => limitRequest userId p l = true) ⟨w₀, []⟩ p →
      ∃ q, p.world.quotas.get userId = some q ∧ q.Within := by
  intro hall
  have hplay : (((service exampleEnv).play (fun p l => limitRequest (exampleId 7) p l = true)
      ⟨bytesWorld 1, []⟩ sideBySide).filter fun p =>
        (p.world.quotas.get (exampleId 7)).map (·.storageUsed) = some 2 ∧
          (p.world.quotas.get (exampleId 7)).map (·.storageLimit) = some 1).isSome = true := by
    decide +kernel
  obtain ⟨p, hp⟩ := Option.isSome_iff_exists.mp hplay
  simp only [Option.filter_eq_some_iff, decide_eq_true_eq] at hp
  obtain ⟨hp, hused, hlimit⟩ := hp
  have hrow : (bytesWorld 1).quotas.get (exampleId 7) = some (bytesLeft 1) := by decide +kernel
  have hn : (bytesLeft 1).NonNeg := ⟨by decide, by decide, by decide⟩
  have hq : (bytesLeft 1).Within := ⟨by decide, by decide, by decide⟩
  obtain ⟨q, hget, hwithin⟩ := hall exampleEnv (exampleId 7) (bytesWorld 1) (bytesLeft 1) p hrow hn
    hq (System.runs_of_play hp)
  -- two bytes are recorded against a limit of one
  rw [hget] at hused hlimit
  have h1 : q.storageUsed = 2 := Option.some.inj hused
  have h2 : q.storageLimit = 1 := Option.some.inj hlimit
  have h3 := hwithin.storageUsed
  omega

end WhisprMedia
