import WhisprMedia.Rows

/-! The quota row against the active rows of a user. Every request has a balance: what it has
inserted and not yet charged counts against it, what it has deleted and not yet released counts
for it. The row records the active media plus the balances of the requests in progress. -/
namespace WhisprMedia
open Awaiting Keyed MediaService QuotaService

/-- What the row of a user records: bytes and files. A user without a row has recorded nothing. -/
def recorded (userId : String) (w : World) : ℤ × ℤ :=
  match w.quotas.get userId with
  | some q => (q.storageUsed, q.filesCount)
  | none => 0

/-- What one row of `media` takes up for the user. -/
def holding (userId : String) (m : Media) : ℤ × ℤ :=
  if m.ownerId = userId ∧ m.isActive = true then ((m.blobSize : ℤ), 1) else 0

def activeTotal (userId : String) (w : World) : ℤ × ℤ := (w.media.rows.map (holding userId)).sum

/-- The active rows of a user. -/
def activeRows (userId : String) (w : World) : List Media :=
  w.media.rows.filter fun m => m.ownerId = userId && m.isActive

theorem activeTotal_eq (userId : String) (w : World) : activeTotal userId w =
    (((activeRows userId w).map fun m => (m.blobSize : ℤ)).sum,
      ((activeRows userId w).length : ℤ)) := by
  unfold activeTotal activeRows
  induction w.media.rows with
  | nil => rfl
  | cons m ms ih =>
    rw [List.map_cons, List.sum_cons, ih, List.filter_cons]
    by_cases hm : m.ownerId = userId ∧ m.isActive = true
    · have hb : (m.ownerId = userId && m.isActive : Bool) = true := by simpa using hm
      simp only [holding, if_pos hm, hb, ↓reduceIte, List.map_cons, List.sum_cons,
        List.length_cons, Prod.mk_add_mk]
      push_cast
      rw [add_comm 1]
    · have hb : (m.ownerId = userId && m.isActive : Bool) = false := by simpa using hm
      simp only [holding, if_neg hm, hb, Bool.false_eq_true, ↓reduceIte, zero_add]

/-! The account of a request -/

/-- The user whose uploads and deletes move the books. -/
def Call.bookUser? : Call → Option String
  | .upload ownerId _ _ _ _ => some ownerId
  | .delete _ requesterId => some requesterId
  | _ => none

structure BookWork where
  /-- The request is an upload or a delete of the user. -/
  mine : Bool
  /-- The request is a delete; it remembers the row it looks up. -/
  deleting : Bool
  found : Option Media
  balance : ℤ × ℤ

namespace BookWork

def add (g : BookWork) (d : ℤ × ℤ) : BookWork :=
  if g.mine then { g with balance := g.balance + d } else g

def next (g : BookWork) (c : Cmd) (r : c.Reply) : BookWork :=
  match c, r with
  | .findMedia _ _, .ok media => if g.deleting then { g with found := media } else g
  | .saveMedia _ media, .ok _ => g.add (-(media.blobSize : ℤ), -1)
  | .chargeQuota _ blobSize, .ok affected =>
    if (affected : ℕ) = 0 then g else g.add (blobSize, 1)
  | .softDelete _ _, .ok _ =>
    match g.found with
    | some media => g.add (media.blobSize, 1)
    | none => g
  | .releaseQuota _ blobSize, .ok affected =>
    if (affected : ℕ) = 0 then g else g.add (-blobSize, -1)
  | _, _ => g

end BookWork

def books (env : Env) (userId : String) : Account Cmd Cmd.Reply Call BookWork (ℤ × ℤ) where
  start x := ⟨x.bookUser?.bind env.uuidIn = some userId, x matches .delete _ _, none, 0⟩
  next := BookWork.next
  value := BookWork.balance

structure BooksInv (env : Env) (userId : String) (w : World) (m : ℤ × ℤ) : Prop where
  balance : recorded userId w = activeTotal userId w + m
  ownerId : ∀ id m, w.media.get id = some m → env.uuidIn m.ownerId = some m.ownerId
  /-- A cached quota has been read from a row. -/
  entryRow : ∀ s e, env.uuidIn s = some userId → w.quotaCache (cacheKey s) = some e →
    (w.quotas.get userId).isSome = true
  /-- A user who has uploaded has a row, and the size of his media passes the validation. -/
  mediaRow : ∀ id m, w.media.get id = some m → m.ownerId = userId →
    (w.quotas.get userId).isSome = true ∧ validateBlobSize (.int m.blobSize) = .ok ()

/-- Rows stay. -/
structure BooksLater (userId : String) (w w' : World) : Prop where
  media : MediaLater w w'
  quota : (w.quotas.get userId).isSome = true → (w'.quotas.get userId).isSome = true

theorem BooksLater.refl (userId : String) (w : World) : BooksLater userId w w :=
  ⟨MediaLater.refl w, id⟩

theorem BooksLater.trans {userId : String} {w w' w'' : World} (h : BooksLater userId w w')
    (h' : BooksLater userId w' w'') : BooksLater userId w w'' :=
  ⟨h.media.trans h'.media, fun hq => h'.quota (h.quota hq)⟩

/-- The user and the size of a release. -/
def Cmd.released? : Cmd → Option (String × Int)
  | .releaseQuota userId blobSize => some (userId, blobSize)
  | _ => none

/-- The user and the row of a soft delete. -/
def Cmd.softDeleted? : Cmd → Option (String × String)
  | .softDelete user id => some (user, id)
  | _ => none

/-- A release finds what it takes back. -/
def ReleaseCovered (env : Env) (userId : String) (w : World) (c : Cmd) : Prop :=
  ∀ d ∈ c.released?, env.uuidIn d.1 = some userId → ∀ q ∈ w.quotas.get userId,
    d.2 ≤ q.storageUsed ∧ 1 ≤ q.filesCount

/-- A soft delete finds the row active. -/
def DeletesActive (env : Env) (userId : String) (w : World) (c : Cmd) : Prop :=
  ∀ d ∈ c.softDeleted?, env.uuidIn d.1 = some userId →
    ∀ m ∈ (env.uuidIn d.2).bind w.media.get, m.isActive = true

instance (env : Env) (userId : String) (w : World) (c : Cmd) :
    Decidable (ReleaseCovered env userId w c) :=
  inferInstanceAs (Decidable (∀ d ∈ c.released?, _))

instance (env : Env) (userId : String) (w : World) (c : Cmd) :
    Decidable (DeletesActive env userId w c) :=
  inferInstanceAs (Decidable (∀ d ∈ c.softDeleted?, _))

def booksDiscipline (env : Env) (userId : String) :
    Discipline (service env) BookWork (ℤ × ℤ) where
  toAccount := books env userId
  inv := BooksInv env userId
  rely w _ w' _ := BooksLater userId w w'
  may w _ _ c := ReleaseCovered env userId w c ∧ DeletesActive env userId w c
  rely_refl w _ := BooksLater.refl userId w
  rely_trans h h' := h.trans h'

section Commands
variable {env : Env} {userId : String} {c : Cmd} {w w' : World} {g : BookWork} {m : ℤ × ℤ}

theorem booksLater_exec : BooksLater userId w (env.exec c w).2 :=
  ⟨mediaLater_exec, quota_isSome_exec⟩

theorem recorded_exec (hc : c.family ≠ .quotaCharge) (hr : c.family ≠ .quotaRelease) :
    recorded userId (env.exec c w).2 = recorded userId w := by
  simp only [recorded]
  generalize hq : (env.exec c w).2.quotas.get userId = r
  cases quota_step hq with
  | kept same => rw [same]
  | inserted cmd user missing => rw [missing]; rfl
  | charged cmd => exact absurd (congrArg Cmd.family cmd) hc
  | released cmd => exact absurd (congrArg Cmd.family cmd) hr
  | reset cmd old => rw [old]

theorem activeTotal_modify {user id : String} {f : Media → Media} {hf : ∀ m, (f m).id = m.id}
    {m₀ : Media} (h : w.media.get id = some m₀) :
    activeTotal userId (w.updateOwned user id f hf) = activeTotal userId w - holding userId m₀ +
      holding userId (if m₀.ownerId = user then f m₀ else m₀) := by
  simp only [activeTotal, World.updateOwned, Table.sum_modify (holding userId) h]

theorem activeTotal_exec (hi : c.family ≠ .mediaInsert) (hd : c.family ≠ .mediaDelete) :
    activeTotal userId (env.exec c w).2 = activeTotal userId w := by
  refine Table.sum_of_get (holding userId) (holding userId) fun k => ?_
  generalize hr : (env.exec c w).2.media.get k = r
  cases media_step hr with
  | kept same => rw [same]
  | inserted cmd => exact absurd (congrArg Cmd.family cmd) hi
  | removed cmd => exact absurd (congrArg Cmd.family cmd) hd
  | shared cmd old | signed cmd old =>
    rw [old]
    rfl

/-- The two facts about rows survive every command that inserts no row and stores no entry. -/
theorem booksInv_exec (h : BooksInv env userId w m) (hi : c.family ≠ .mediaInsert)
    (hq : c.family ≠ .quotaFill) {n : ℤ × ℤ}
    (hn : recorded userId (env.exec c w).2 = activeTotal userId (env.exec c w).2 + n) :
    BooksInv env userId (env.exec c w).2 n := by
  have hbefore (id : String) (m' : Media) (hm : (env.exec c w).2.media.get id = some m') :
      ∃ m₀, w.media.get id = some m₀ ∧ m₀.Becomes m' := by
    rcases media_before_exec hm with hb | ⟨user, media, rfl, -⟩
    · exact hb
    · exact absurd rfl hi
  refine ⟨hn, fun id m' hm => ?_, fun s e hs he => quota_isSome_exec (h.entryRow s e hs ?_),
    fun id m' hm ho => ?_⟩
  · obtain ⟨m₀, hm₀, hb⟩ := hbefore id m' hm
    exact hb.ownerId_eq ▸ h.ownerId id m₀ hm₀
  · exact quotaCache_before_exec hq he
  · obtain ⟨m₀, hm₀, hb⟩ := hbefore id m' hm
    obtain ⟨hrow, hv⟩ := h.mediaRow id m₀ hm₀ (hb.ownerId_eq ▸ ho)
    exact ⟨quota_isSome_exec hrow, hb.blobSize_eq ▸ hv⟩

/-- The commands that leave the books alone. -/
def Family.movesBooks : Family → Bool
  | .mediaInsert | .mediaDelete | .quotaCharge | .quotaRelease | .quotaFill => true
  | _ => false

theorem book_next_quiet {r : c.Reply} (hf : c.family.movesBooks = false)
    (hg : c.family = .mediaLookup → g.deleting = false) : BookWork.next g c r = g := by
  cases c <;> cases r <;> first | rfl | exact Bool.noConfusion hf | exact if_neg (by simp [hg rfl])

theorem quiet_neutral (hf : c.family.movesBooks = false)
    (hg : c.family = .mediaLookup → g.deleting = false) :
    (booksDiscipline env userId).Neutral g c := by
  intro w f hi _
  have hne (x : Family) (hx : x.movesBooks = true) : c.family ≠ x := by
    intro h
    rw [h, hx] at hf
    exact absurd hf (by simp)
  refine ⟨book_next_quiet hf hg, booksInv_exec hi (hne _ rfl) (hne _ rfl) ?_, booksLater_exec⟩
  show recorded userId (env.exec c w).2 = activeTotal userId (env.exec c w).2 + _
  rw [recorded_exec (hne _ rfl) (hne _ rfl), activeTotal_exec (hne _ rfl) (hne _ rfl)]
  exact hi.balance

end Commands

section Bodies
variable {env : Env} {userId s : String} {w : World} {g : BookWork} {m : ℤ × ℤ}

/-- The request knows whether it works for the user. -/
def WorksFor (env : Env) (userId s : String) (g : BookWork) : Prop :=
  g.mine = true ↔ env.uuidIn s = some userId

theorem value_add_pos (h : g.mine = true) (d : ℤ × ℤ) : (g.add d).balance = g.balance + d := by
  simp only [BookWork.add, if_pos h]

theorem add_of_not_mine (h : ¬ g.mine = true) (d : ℤ × ℤ) : g.add d = g := by
  simp only [BookWork.add, if_neg h]

@[simp] theorem mine_add (d : ℤ × ℤ) : (g.add d).mine = g.mine := by
  unfold BookWork.add
  split <;> rfl

theorem add_add (d d' : ℤ × ℤ) : (g.add d).add d' = g.add (d + d') := by
  by_cases h : g.mine = true
  · simp only [BookWork.add, h, if_true, add_assoc]
  · simp only [add_of_not_mine h]

@[simp] theorem add_zero' : g.add 0 = g := by
  unfold BookWork.add
  split <;> simp

/-- The row of a new upload counts for its owner from the INSERT on. -/
theorem saveMedia_books (hw : WorksFor env userId s g) {media : Media} (ho : media.ownerId = s)
    (ha : media.isActive = true) (hv : validateBlobSize (.int media.blobSize) = .ok ())
    (hrow : env.uuidIn s = some userId → (w.quotas.get userId).isSome = true) :
    (booksDiscipline env userId).Keeps (await (.saveMedia s media)) g w m
      (fun _ g' _ _ => g' = g.add (-(media.blobSize : ℤ), -1)) (fun _ g' _ _ => g' = g) := by
  refine keeps_await fun w' f r u hr hi _ he => ?_
  have hlater : BooksLater userId w' u := by
    have h := @booksLater_exec env userId (.saveMedia s media) w'
    rwa [he] at h
  rcases exec_saveMedia he with ⟨m₀, rfl, hm, hu, hn, rfl⟩ | ⟨e, rfl, rfl⟩
  · obtain ⟨-, howner, -, heq⟩ := mediaIn_eq hm
    have hown : env.uuidIn s = some m₀.ownerId := ho ▸ howner
    have hact : m₀.isActive = true := by rw [heq]; exact ha
    have hsize : m₀.blobSize = media.blobSize := by rw [heq]
    have htotal : activeTotal userId { w' with media := w'.media.insert m₀ } =
        activeTotal userId w' + holding userId m₀ := by
      simp only [activeTotal, Table.rows_insert hn, List.map_append, List.sum_append,
        List.map_cons, List.map_nil, List.sum_cons, List.sum_nil, add_zero]
    refine ⟨⟨?_, fun id m₁ hm₁ => ?_, hi.entryRow, fun id m₁ hm₁ ho₁ => ?_⟩, hlater,
      fun _ _ _ _ => rfl⟩
    · -- the new row is the user's exactly when the request is
      have hb := hi.balance
      show recorded userId w' = _ + ((g.add _).balance + f)
      rw [htotal]
      have hb : recorded userId w' = activeTotal userId w' + (g.balance + f) := hb
      by_cases hmine : g.mine = true
      · have hme : m₀.ownerId = userId := Option.some.inj (hown.symm.trans (hw.mp hmine))
        rw [value_add_pos hmine, hb, holding, if_pos ⟨hme, hact⟩, hsize]
        ext <;> simp <;> omega
      · have hother : m₀.ownerId ≠ userId := fun h => hmine (hw.mpr (h ▸ hown))
        rw [add_of_not_mine hmine, hb, holding, if_neg fun h => hother h.1, add_zero]
    · have hget : (w'.media.insert m₀).get id = some m₁ := hm₁
      rw [get_insertMedia hn] at hget
      split at hget
      · obtain rfl := Option.some.inj hget
        exact env.uuidIn_canonical _ _ hown
      · exact hi.ownerId id m₁ hget
    · have hget : (w'.media.insert m₀).get id = some m₁ := hm₁
      rw [get_insertMedia hn] at hget
      split at hget
      · obtain rfl := Option.some.inj hget
        exact ⟨hr.quota (hrow (ho₁ ▸ hown)), hsize ▸ hv⟩
      · exact hi.mediaRow id m₁ hget ho₁
  · exact ⟨hi, hlater, fun _ _ _ _ => rfl⟩

/-- A charge or a release moves the record and the balance of the request by the same amount. -/
theorem recorded_update {v : String} {f : UserQuota → UserQuota}
    {hf : ∀ q, (f q).userId = q.userId} {d k : ℤ × ℤ} (hw : g.mine = true ↔ v = userId)
    (hd : v = userId → ∀ q, w.quotas.get userId = some q →
      ((f q).storageUsed, (f q).filesCount) = (q.storageUsed, q.filesCount) + d)
    (hbal : recorded userId w = activeTotal userId w + (g.balance + k)) :
    recorded userId (w.updateQuota v f hf) = activeTotal userId w +
      ((if (if (w.quotas.get v).isSome = true then 1 else 0) = 0 then g else g.add d).balance +
        k) := by
  by_cases hv : v = userId
  · subst hv
    simp only [recorded, get_updateQuota, ↓reduceIte] at hbal ⊢
    cases hq : w.quotas.get v with
    | none =>
      rw [hq] at hbal
      simpa using hbal
    | some q =>
      rw [hq] at hbal
      simp only [Option.map_some, Option.isSome_some, ↓reduceIte, one_ne_zero,
        value_add_pos (hw.mpr rfl), hd rfl q hq] at hbal ⊢
      rw [hbal]
      abel
  · have hsame (j : ℕ) : (if j = 0 then g else g.add d) = g := by
      rw [add_of_not_mine fun h => hv (hw.mp h), ite_self]
    rw [hsame]
    simpa only [recorded, get_updateQuota, if_neg (Ne.symm hv)] using hbal

/-- A charge or a release with the check of the balances only. -/
theorem booksInv_update {c : Cmd} {f : ℤ × ℤ} (hc : c.family = .quotaCharge ∨ c.family = .quotaRelease)
    (hi : BooksInv env userId w (g.balance + f)) {k : ℤ × ℤ}
    (hk : recorded userId (env.exec c w).2 = activeTotal userId w + k) :
    BooksInv env userId (env.exec c w).2 k := by
  have hne (x : Family) (h1 : x ≠ .quotaCharge) (h2 : x ≠ .quotaRelease) : c.family ≠ x := by
    rintro rfl
    exact hc.elim h1 h2
  refine booksInv_exec hi (hne _ (by decide) (by decide)) (hne _ (by decide) (by decide)) ?_
  rw [activeTotal_exec (hne _ (by decide) (by decide)) (hne _ (by decide) (by decide))]
  exact hk

/-- What a charge or a release does to the balance of the request; for the user himself it finds
the row that is there. -/
abbrev Moved (userId : String) (w : World) (g : BookWork) (d : ℤ × ℤ) :
    ℕ → BookWork → World → ℤ × ℤ → Prop :=
  fun affected g' _ _ => g' = (if affected = 0 then g else g.add d) ∧
    (g.mine = true → (w.quotas.get userId).isSome = true → affected ≠ 0)

theorem chargeQuota_books (hw : WorksFor env userId s g) (n : Int) :
    (booksDiscipline env userId).Keeps (await (.chargeQuota s n)) g w m
      (Moved userId w g (n, 1)) (fun _ g' _ _ => g' = g ∧ ¬ g.mine = true) := by
  refine keeps_await fun w' f r u hr hi _ he => ?_
  have hlater := @booksLater_exec env userId (.chargeQuota s n) w'
  have hinv := @booksInv_update env userId w' g (.chargeQuota s n) f (Or.inl rfl) hi
  rw [he] at hlater hinv
  simp only [Env.exec] at he
  split at he
  · next v hv =>
    obtain ⟨rfl, rfl⟩ := Prod.mk.inj he
    have hwv : g.mine = true ↔ v = userId := Iff.trans hw (by rw [hv, Option.some.injEq])
    refine ⟨hinv (recorded_update hwv (fun _ _ _ => rfl) hi.balance), hlater,
      fun u' n' hu' _ => ⟨rfl, fun hmine hrow => ?_⟩⟩
    rw [if_pos (hwv.mp hmine ▸ hr.quota hrow)]
    exact one_ne_zero
  · next hv =>
    obtain ⟨rfl, rfl⟩ := Prod.mk.inj he
    exact ⟨hi, hlater, fun _ _ _ _ => ⟨rfl, fun hmine => by simp [hw.mp hmine] at hv⟩⟩

/-- A release that is covered takes back exactly what it says. -/
theorem releaseQuota_books (hw : WorksFor env userId s g) (n : Int) :
    (booksDiscipline env userId).Keeps (await (.releaseQuota s n)) g w m
      (Moved userId w g (-n, -1)) (fun _ g' _ _ => g' = g ∧ ¬ g.mine = true) := by
  refine keeps_await fun w' f r u hr hi hm he => ?_
  have hlater := @booksLater_exec env userId (.releaseQuota s n) w'
  have hinv := @booksInv_update env userId w' g (.releaseQuota s n) f (Or.inr rfl) hi
  rw [he] at hlater hinv
  simp only [Env.exec] at he
  split at he
  · next v hv =>
    obtain ⟨rfl, rfl⟩ := Prod.mk.inj he
    have hwv : g.mine = true ↔ v = userId := Iff.trans hw (by rw [hv, Option.some.injEq])
    refine ⟨hinv (recorded_update hwv (fun hme q hq => ?_) hi.balance), hlater,
      fun u' n' hu' _ => ⟨rfl, fun hmine hrow => ?_⟩⟩
    · obtain ⟨hn, h1⟩ := hm.1 (s, n) rfl (hme ▸ hv) q hq
      ext <;> simp only [Prod.mk_add_mk] <;> omega
    · rw [if_pos (hwv.mp hmine ▸ hr.quota hrow)]
      exact one_ne_zero
  · next hv =>
    obtain ⟨rfl, rfl⟩ := Prod.mk.inj he
    exact ⟨hi, hlater, fun _ _ _ _ => ⟨rfl, fun hmine => by simp [hw.mp hmine] at hv⟩⟩

/-- A row that the request has looked up, as it is now. -/
def Seen (env : Env) (id : String) (media : Media) (w : World) : Prop :=
  ∃ i m, env.uuidIn id = some i ∧ w.media.get i = some m ∧ media.Becomes m

theorem Seen.later {id : String} {media : Media} {w w' : World} (h : Seen env id media w)
    (hl : MediaLater w w') : Seen env id media w' := by
  obtain ⟨i, m, hi, hm, hb⟩ := h
  obtain ⟨m', hm', hb'⟩ := hl i m hm
  exact ⟨i, m', hi, hm', hb.trans hb'⟩

/-- A soft delete of an active row of the user counts for the request until the release. -/
theorem softDelete_books (hw : WorksFor env userId s g) {id : String} {media : Media}
    (hf : g.found = some media) (hs : Seen env id media w) (ho : media.ownerId = s) :
    (booksDiscipline env userId).Keeps (await (.softDelete s id)) g w m
      (fun _ g' w' _ => g' = g.add (media.blobSize, 1) ∧ Seen env id media w')
      (fun _ g' _ _ => g' = g ∧ ¬ g.mine = true) := by
  refine keeps_await fun w' f r u hr hi hm he => ?_
  have hlater := @booksLater_exec env userId (.softDelete s id) w'
  have hinv := @booksInv_exec env userId (.softDelete s id) w' _ hi (by simp [Cmd.family])
    (by simp [Cmd.family])
  rw [he] at hlater hinv
  have hs' := hs.later hr.media
  obtain ⟨i, m₀, hid, hrow, hb⟩ := hs'
  simp only [Env.exec, hid] at he
  have hcanon : env.uuidIn s = some s := by
    have h := hi.ownerId i m₀ hrow
    rwa [hb.ownerId_eq, ho] at h
  rw [hcanon] at he
  obtain ⟨rfl, rfl⟩ := Prod.mk.inj he
  have hg : (booksDiscipline env userId).next g (.softDelete s id) (.ok ()) =
      g.add (media.blobSize, 1) := by
    show (match g.found with | some media => g.add (media.blobSize, 1) | none => g) = _
    rw [hf]
  rw [hg]
  refine ⟨hinv ?_, hlater, fun u' n hu' _ => ⟨rfl, (hs.later hr.media).later
    (hlater.media.trans hu'.media)⟩⟩
  have hbal : recorded userId w' = activeTotal userId w' + (g.balance + f) := hi.balance
  show recorded userId w' = _ + ((g.add (media.blobSize, 1)).balance + f)
  by_cases hmine : g.mine = true
  · have hme : s = userId := Option.some.inj (hcanon.symm.trans (hw.mp hmine))
    have hact : m₀.isActive = true :=
      hm.2 (s, id) rfl (hw.mp hmine) m₀ (by simp only [hid, Option.bind_some, hrow]; rfl)
    have hown : m₀.ownerId = userId := by rw [hb.ownerId_eq, ho, hme]
    have hbefore : holding userId m₀ = ((media.blobSize : ℤ), 1) := by
      rw [holding, if_pos ⟨hown, hact⟩, hb.blobSize_eq]
    have hafter : holding userId
        (if m₀.ownerId = s then { m₀ with isActive := false } else m₀) = 0 := by
      rw [if_pos (hown.trans hme.symm), holding, if_neg (by simp)]
    rw [value_add_pos hmine, hbal, activeTotal_modify hrow, hbefore, hafter]
    abel
  · -- the row is another user's, before and after
    have hother : m₀.ownerId ≠ userId :=
      fun h => hmine (hw.mpr (by rw [hcanon, ← ho, ← hb.ownerId_eq, h]))
    have hbefore : holding userId m₀ = 0 := if_neg fun h => hother h.1
    have hafter : holding userId
        (if m₀.ownerId = s then { m₀ with isActive := false } else m₀) = 0 := by
      split <;> exact if_neg fun h => hother h.1
    rw [add_of_not_mine hmine, hbal, activeTotal_modify hrow, hbefore, hafter, sub_zero, add_zero]

theorem quiet_neutrals {F : List Family} (hF : ∀ f ∈ F, f.movesBooks = false)
    (hl : .mediaLookup ∈ F → g.deleting = false) :
    ∀ c : Cmd, c.family ∈ F → (booksDiscipline env userId).Neutral g c :=
  fun _ hc => quiet_neutral (hF _ hc) fun h => hl (h ▸ hc)

/-- If the user is this one, there is a row for him. -/
def HasRow (env : Env) (userId s : String) (w : World) : Prop :=
  env.uuidIn s = some userId → (w.quotas.get userId).isSome = true

theorem HasRow.later {w' : World} (h : HasRow env userId s w) (hl : BooksLater userId w w') :
    HasRow env userId s w' := fun hs => hl.quota (h hs)

theorem exec_findQuota_some {row : UserQuota} {u : World}
    (h : env.exec (.findQuota s) w = (.ok (some row), u)) : HasRow env userId s u := by
  intro hs
  simp only [Env.exec, hs] at h
  obtain ⟨h1, rfl⟩ := Prod.mk.inj h
  rw [Except.ok.inj h1]
  rfl

theorem findOrInsertRow_books : (booksDiscipline env userId).Keeps (findOrInsertRow s) g w m
    (fun _ g' w' _ => g' = g ∧ HasRow env userId s w') (fun _ g' _ _ => g' = g) := by
  have hfind (w : World) (m : ℤ × ℤ) := keeps_await_neutral (w := w) (m := m)
    (D := booksDiscipline env userId) (quiet_neutral (g := g) (c := .findQuota s) rfl (by simp [Cmd.family]))
  have hsome {w w' : World} {m m' : ℤ × ℤ} {row : UserQuota}
      (h : Answered (booksDiscipline env userId) g (.findQuota s) (.ok (some row)) w m w' m') :
      HasRow env userId s w' := by
    obtain ⟨w₀, u, m₀, -, -, -, he, -, -, hl⟩ := h.answered
    exact (exec_findQuota_some he).later hl
  refine Discipline.Keeps.bind ((hfind w m).mono (fun _ _ _ _ _ h => h) fun _ _ _ _ _ h => h.1)
    fun r g' w₁ m₁ hi₁ h => ?_
  obtain ⟨rfl, -⟩ := h.now hi₁
  cases r with
  | some row =>
    refine Discipline.keeps_pure fun w' m' hr hi => ?_
    exact ⟨rfl, hsome (h w' m' hr hi).2⟩
  | none =>
    refine keeps_after_touch (F := [.quotaLookup]) (touches_await (by simp [Cmd.family]))
      (quiet_neutrals (by decide) (by simp)) (fun _ _ _ _ _ => rfl) fun _ w₂ m₂ _ _ => ?_
    refine Discipline.Keeps.bind ((hfind w₂ m₂).mono (fun _ _ _ _ _ h => h)
      fun _ _ _ _ _ h => h.1) fun r g' w₃ m₃ hi₃ h => ?_
    obtain ⟨rfl, -⟩ := h.now hi₃
    cases r with
    | some row =>
      refine Discipline.keeps_pure fun w' m' hr hi => ?_
      exact ⟨rfl, hsome (h w' m' hr hi).2⟩
    | none => exact Discipline.keeps_throw fun _ _ _ _ => rfl

/-- An entry is stored for a user who has a row. -/
theorem setQuota_books (h : HasRow env userId s w) (q : UserQuota)
    {E : Err → BookWork → World → ℤ × ℤ → Prop} : (booksDiscipline env userId).Keeps
      (await (.setQuota (cacheKey s) (toCached q) QUOTA_CACHE_TTL_MS)) g w m
      (fun _ g' w' _ => g' = g ∧ HasRow env userId s w') E := by
  refine keeps_await fun w' f r u hr hi _ he => ?_
  have hlater := @booksLater_exec env userId
    (.setQuota (cacheKey s) (toCached q) QUOTA_CACHE_TTL_MS) w'
  rw [he] at hlater
  obtain ⟨rfl, rfl⟩ := Prod.mk.inj he
  have hrow := h.later hr
  refine ⟨⟨hi.balance, hi.ownerId, fun s' e hs' he' => ?_, hi.mediaRow⟩, hlater,
    fun u' n hu' _ => ⟨rfl, hrow.later (hlater.trans hu')⟩⟩
  by_cases hk : cacheKey s' = cacheKey s
  · exact hrow (cacheKey_injective hk ▸ hs')
  · simp only [Function.update_of_ne hk] at he'
    exact hi.entryRow s' e hs' he'

theorem getOrCreateQuota_books : (booksDiscipline env userId).Keeps (getOrCreateQuota s) g w m
    (fun _ g' w' _ => g' = g ∧ HasRow env userId s w') (fun _ g' _ _ => g' = g) := by
  have hget := keeps_await_neutral (w := w) (m := m) (D := booksDiscipline env userId)
    (quiet_neutral (g := g) (c := .getQuota (cacheKey s)) rfl (by simp [Cmd.family]))
  refine Discipline.Keeps.bind (Q := fun r g' w' _ => g' = g ∧
      (r.isSome = true → HasRow env userId s w')) (E := fun _ g' _ _ => g' = g)
    (Discipline.Keeps.tryCatch (hget.mono (fun r g' w' m' hi h => ⟨h.1, fun hr => ?_⟩)
      fun _ _ _ _ _ h => h.1) fun _ g' w' m' hi h => ?_) fun r g' w₁ m₁ hi₁ h => ?_
  · obtain ⟨e, rfl⟩ := Option.isSome_iff_exists.mp hr
    obtain ⟨w₀, u, m₀, -, hi₀, -, he, -, -, hl⟩ := h.2.answered
    obtain ⟨he1, rfl⟩ := Prod.mk.inj he
    exact HasRow.later (fun hs => hi₀.entryRow s e hs (Except.ok.inj he1)) hl
  · obtain rfl := h.now hi
    exact Discipline.keeps_pure fun _ _ _ _ => ⟨rfl, fun hr => absurd hr (by simp)⟩
  · obtain ⟨rfl, -⟩ := h.now hi₁
    cases r with
    | some cached =>
      refine keeps_sync (fun q _ w' m' hr hi => ?_) fun _ _ _ _ _ _ => rfl
      exact ⟨rfl, (h w' m' hr hi).2 rfl⟩
    | none =>
      refine Discipline.Keeps.bind findOrInsertRow_books fun q g' w₂ m₂ hi₂ h => ?_
      obtain ⟨rfl, hrow⟩ := h.now hi₂
      refine Discipline.Keeps.bind (Discipline.Keeps.tryCatch (E := fun _ _ _ _ => False)
        (setQuota_books hrow q) fun _ _ _ _ hi h => (h.now hi).elim) fun _ g' w₃ m₃ hi₃ h => ?_
      obtain ⟨rfl, -⟩ := h.now hi₃
      exact Discipline.keeps_pure h

/-- An upload that passes the quota check has a row to be charged to. -/
theorem enforceQuota_books (n : JsNumber) : (booksDiscipline env userId).Keeps (enforceQuota s n)
    g w m (fun _ g' w' _ => g' = g ∧ HasRow env userId s w' ∧ validateBlobSize n = .ok ())
      (fun _ g' _ _ => g' = g) := by
  cases hv : validateBlobSize n with
  | error e =>
    have herr : enforceQuota s n = sync (.error e) := by
      unfold enforceQuota checkQuota
      rw [hv]
      rfl
    rw [herr]
    exact keeps_sync (fun a ha => absurd ha (by simp)) fun _ _ _ _ _ _ => rfl
  | ok a =>
    unfold enforceQuota checkQuota
    rw [hv]
    refine Discipline.Keeps.bind (Q := fun _ g' w' _ => g' = g ∧ HasRow env userId s w')
      (keeps_sync_bind (fun _ he => absurd he (by simp)) fun _ _ =>
        Discipline.Keeps.bind getOrCreateQuota_books fun q g' w₁ m₁ hi₁ h =>
          Discipline.keeps_pure h) fun result g' w₂ m₂ hi₂ h => ?_
    obtain ⟨rfl, -⟩ := h.now hi₂
    refine keeps_sync (fun _ _ w' m' hr hi => ?_) fun _ _ _ _ _ _ => rfl
    exact ⟨rfl, (h w' m' hr hi).2, rfl⟩

theorem invalidateCache_books {E : Err → BookWork → World → ℤ × ℤ → Prop} :
    (booksDiscipline env userId).Keeps (invalidateCache s) g w m
      (fun _ g' w' _ => g' = g ∧ BooksLater userId w w') E :=
  keeps_quietly (quiet_neutral rfl (by simp [Cmd.family]))

/-- A request of another user, or one whose balance is not moved. -/
abbrev Unmoved (g : BookWork) : Err → BookWork → World → ℤ × ℤ → Prop :=
  fun _ g' _ _ => g' = g ∧ ¬ g.mine = true

/-- The user's counters have been moved, or the request fails and is not his. -/
theorem enforceAffected_books (hw : WorksFor env userId s g) (hrow : HasRow env userId s w)
    {d : ℤ × ℤ} {affected : ℕ} {g' : BookWork} {w₁ : World} {m₁ : ℤ × ℤ} {α : Type}
    {f : Unit → Svc α} {Q : α → BookWork → World → ℤ × ℤ → Prop}
    (h : Moved userId w g d affected g' w₁ m₁)
    (hf : (booksDiscipline env userId).Keeps (f ()) (g.add d) w₁ m₁ Q (Unmoved g)) :
    (booksDiscipline env userId).Keeps (sync (enforceAffected s affected) >>= f) g' w₁ m₁ Q
      (Unmoved g) := by
  obtain ⟨rfl, hpos⟩ := h
  refine keeps_sync_bind (fun e he _ _ _ _ => ?_) fun _ hok => ?_
  · have hz := enforceAffected_error he
    exact ⟨if_pos hz, fun hmine => hpos hmine (hrow (hw.mp hmine)) hz⟩
  · rw [if_neg (enforceAffected_ok hok)]
    exact hf

theorem recordUpload_books (hw : WorksFor env userId s g) (hrow : HasRow env userId s w)
    {n : JsNumber} (hv : validateBlobSize n = .ok ()) :
    (booksDiscipline env userId).Keeps (recordUpload s n) g w m
      (fun _ g' _ _ => g' = g.add (n.toBigInt, 1)) (Unmoved g) := by
  unfold recordUpload
  rw [hv]
  refine keeps_sync_bind (fun _ he => absurd he (by simp)) fun _ _ =>
    Discipline.Keeps.bind (chargeQuota_books hw n.toBigInt) fun affected g' w₁ m₁ hi₁ h => ?_
  refine enforceAffected_books hw hrow (h.now hi₁) ?_
  refine Discipline.Keeps.bind invalidateCache_books fun _ g' w₂ m₂ hi₂ h => ?_
  obtain ⟨rfl, -⟩ := h.now hi₂
  exact Discipline.Keeps.mono (keeps_await_ok (quiet_neutral rfl (by simp [Cmd.family]))
    fun _ => rfl) (fun _ _ _ _ _ h => h.1) fun _ _ _ _ _ h => h

theorem recordDelete_books (hw : WorksFor env userId s g) (hrow : HasRow env userId s w)
    {n : JsNumber} (hv : env.uuidIn s = some userId → validateBlobSize n = .ok ()) :
    (booksDiscipline env userId).Keeps (recordDelete s n) g w m
      (fun _ g' _ _ => g' = g.add (-n.toBigInt, -1)) (Unmoved g) := by
  unfold recordDelete
  refine keeps_sync_bind (fun e he _ _ _ _ => ⟨rfl, fun hmine => ?_⟩) fun _ _ =>
    Discipline.Keeps.bind (releaseQuota_books hw n.toBigInt) fun affected g' w₁ m₁ hi₁ h => ?_
  · rw [hv (hw.mp hmine)] at he
    exact absurd he (by simp)
  · exact enforceAffected_books hw hrow (h.now hi₁)
      (invalidateCache_books.mono (fun _ _ _ _ _ h => h.1) fun _ _ _ _ _ h => h)

/-- The request stands as it began. -/
abbrev Same {α : Type} (g : BookWork) : α → BookWork → World → ℤ × ℤ → Prop :=
  fun _ g' _ _ => g' = g

theorem saveMedia_body_books (hw : WorksFor env userId s g) {media : Media}
    (ho : media.ownerId = s) (ha : media.isActive = true)
    (hv : validateBlobSize (.int media.blobSize) = .ok ()) (hrow : HasRow env userId s w) :
    (booksDiscipline env userId).Keeps (MediaService.saveMedia s media) g w m
      (fun _ g' _ _ => g' = g.add (-(media.blobSize : ℤ), -1)) (Same g) := by
  exact saveMedia_of_insert (fun _ c hc => quiet_neutral (by rw [hc]; rfl) (by simp [hc]))
    (saveMedia_books hw ho ha hv hrow)

theorem storeNew_books (hw : WorksFor env userId s g) {file : File}
    (hv : validateBlobSize (.int file.size) = .ok ()) (hrow : HasRow env userId s w)
    (context : MediaContext) (thumbnailFile : Option File) (sharedWith : Option (List String)) :
    (booksDiscipline env userId).Keeps (storeNew env s file context thumbnailFile sharedWith) g w m
      (fun _ g' _ _ => g' = g.add (-(file.size : ℤ), -1)) (Same g) := by
  refine storeNew_of_saveMedia (E := fun g' _ _ => g' = g) (quiet_neutrals (by decide) (by simp))
    (fun _ _ _ _ => rfl) fun media w₁ m₁ hr₁ hmedia => ?_
  rw [← hmedia.size] at hv ⊢
  exact saveMedia_body_books hw hmedia.owner hmedia.active hv (hrow.later hr₁)

theorem add_cancel {d d' : ℤ × ℤ} (h : d + d' = 0) : (g.add d).add d' = g := by
  rw [add_add, h, add_zero']

theorem add_unmoved {d : ℤ × ℤ} {g' : BookWork}
    (h : g' = g.add d ∧ ¬ (g.add d).mine = true) : g' = g := by
  rw [h.1, add_of_not_mine]
  simpa using h.2

theorem uploadHeld_books (hw : WorksFor env userId s g) (hdel : g.deleting = false) (file : File)
    (context : MediaContext) (thumbnailFile : Option File) (sharedWith : Option (List String)) :
    (booksDiscipline env userId).Keeps
      (uploadHeld env s file context thumbnailFile sharedWith) g w m (Same g) (Same g) := by
  unfold uploadHeld
  refine keeps_after_touch (authorizeGroupIconUpload_touches env context s)
    (quiet_neutrals (by decide) (by simp)) (fun _ _ _ _ _ => rfl) fun _ w₁ m₁ _ _ =>
    Discipline.Keeps.bind (enforceQuota_books _) fun _ g₂ w₂ m₂ hi₂ h₂ => ?_
  obtain ⟨rfl, hrow, hv⟩ := h₂.now hi₂
  refine keeps_after_touch (validateFile_touches env file context)
    (quiet_neutrals (by decide) (by simp)) (fun _ _ _ _ _ => rfl) fun _ w₃ m₃ h₃ _ =>
    keeps_after_touch (findDuplicate_touches s _)
      (quiet_neutrals (by decide) fun _ => hdel) (fun _ _ _ _ _ => rfl)
      fun duplicate w₄ m₄ h₄ _ => ?_
  cases duplicate with
  | some existing =>
    exact keeps_after_touch (mergeSharedWith_touches s existing sharedWith)
      (quiet_neutrals (by decide) (by simp)) (fun _ _ _ _ _ => rfl) fun _ _ _ _ _ =>
        keeps_of_touch (buildUploadResponse_touches env existing)
          (quiet_neutrals (by decide) (by simp)) (fun _ _ _ _ _ => rfl) fun _ _ _ _ _ => rfl
  | none =>
    have hrow₄ := hrow.later (h₃.trans h₄)
    refine Discipline.Keeps.seq (storeNew_books hw hv hrow₄ context thumbnailFile sharedWith)
      fun media g' w₅ m₅ h₅ hi₅ hg₅ => ?_
    obtain rfl := hg₅.now hi₅
    -- from here on nothing fails: the row is charged
    refine Discipline.Keeps.bind (keeps_await_ok (quiet_neutral rfl (by simp [Cmd.family]))
      fun _ => rfl) fun _ g' w₆ m₆ hi₆ h₆ => ?_
    obtain ⟨rfl, hr₆⟩ := h₆.now hi₆
    have hw' : WorksFor env userId s (g₂.add (-(file.size : ℤ), -1)) := by
      simpa only [WorksFor, mine_add] using hw
    refine Discipline.Keeps.bind ((recordUpload_books hw' (hrow₄.later (h₅.trans hr₆)) hv).mono
      (fun _ _ _ _ _ h => h) fun _ _ _ _ _ h => add_unmoved h) fun _ g' w₇ m₇ hi₇ h₇ => ?_
    obtain rfl := h₇.now hi₇
    rw [add_cancel (by simp [JsNumber.toBigInt])]
    exact keeps_of_touch (buildUploadResponse_touches env media)
      (quiet_neutrals (by decide) (by simp)) (fun _ _ _ _ _ => rfl) fun _ _ _ _ _ => rfl

/-- The balance stands as it began. -/
abbrev SameBalance {α : Type} (g : BookWork) : α → BookWork → World → ℤ × ℤ → Prop :=
  fun _ g' _ _ => g'.balance = g.balance

theorem findActive_books (hdel : g.deleting = true) (id : String) :
    (booksDiscipline env userId).Keeps (findActive id s) g w m
      (fun media g' w' _ => g' = { g with found := some media } ∧ Seen env id media w')
      (SameBalance g) := by
  refine Discipline.Keeps.bind (Q := fun r g' w' _ => g' = { g with found := r } ∧
      ∀ media, r = some media → Seen env id media w') (E := SameBalance g)
    (keeps_await fun w' f r u hr hi hm he => ?_) fun r g' w' m' hi h => ?_
  · obtain rfl := findMedia_world he
    cases r with
    | error e => exact ⟨hi, BooksLater.refl userId u, fun _ _ _ _ => rfl⟩
    | ok media =>
      have hg : (booksDiscipline env userId).next g (.findMedia s id) (.ok media) =
          { g with found := media } := if_pos hdel
      rw [hg]
      refine ⟨⟨hi.balance, hi.ownerId, hi.entryRow, hi.mediaRow⟩, BooksLater.refl userId u,
        fun u' n hu _ => ⟨rfl, ?_⟩⟩
      rintro media rfl
      simp only [Env.exec] at he
      split at he
      · next v i hv hid =>
        have hrow := Except.ok.inj (Prod.mk.inj he).1
        refine Seen.later ⟨i, media, hid, ?_, Media.Becomes.refl media⟩ hu.media
        exact (Option.filter_eq_some_iff.mp hrow).1
      · exact absurd (Prod.mk.inj he).1 (by simp)
  · obtain ⟨rfl, -⟩ := h.now hi
    cases r with
    | none => exact Discipline.keeps_throw fun _ _ _ _ => rfl
    | some media =>
      exact Discipline.keeps_pure fun w' m' hr hi => ⟨rfl, (h w' m' hr hi).2 media rfl⟩

/-- The row of a media that the user owns has a quota row beside it. -/
theorem seen_row (hi : BooksInv env userId w m) {id : String} {media : Media}
    (hs : Seen env id media w) (ho : media.ownerId = s) (hu : env.uuidIn s = some userId) :
    (w.quotas.get userId).isSome = true ∧ validateBlobSize (.int media.blobSize) = .ok () := by
  obtain ⟨i, m₀, -, hm₀, hb⟩ := hs
  have hcanon := hi.ownerId i m₀ hm₀
  rw [hb.ownerId_eq, ho] at hcanon
  have hme : s = userId := Option.some.inj (hcanon.symm.trans hu)
  have h := hi.mediaRow i m₀ hm₀ (by rw [hb.ownerId_eq, ho, hme])
  rwa [hb.blobSize_eq] at h

/-- What is released once the row is inactive. -/
theorem removeDeleted_books (hw : WorksFor env userId s g) {id : String} {media : Media}
    (hs : Seen env id media w) (ho : media.ownerId = s) :
    (booksDiscipline env userId).Keeps (removeDeleted id s media) (g.add (media.blobSize, 1)) w m
      (Same g) (Same g) := by
  have hw' : WorksFor env userId s (g.add (media.blobSize, 1)) := by
    simpa only [WorksFor, mine_add] using hw
  have hrest {w : World} {m : ℤ × ℤ} (hs : Seen env id media w) :
      (booksDiscipline env userId).Keeps (do
        await (.delMeta (metaKey id))
        recordDelete s (.int media.blobSize)) (g.add (media.blobSize, 1)) w m
        (Same g) (Same g) := by
    refine Discipline.Keeps.bind (keeps_await_ok (quiet_neutral rfl (by simp [Cmd.family]))
      fun _ => rfl) fun _ g' w₁ m₁ hi₁ h => ?_
    obtain ⟨rfl, hr⟩ := h.now hi₁
    have hrow := seen_row hi₁ (hs.later hr.media) ho
    refine (recordDelete_books hw' (fun hu => (hrow hu).1) fun hu => (hrow hu).2).mono
      (fun _ _ _ _ _ h => ?_) fun _ _ _ _ _ h => add_unmoved h
    rw [h, add_cancel (by simp [JsNumber.toBigInt])]
  refine Discipline.Keeps.bind (keeps_await_ok (quiet_neutral rfl (by simp [Cmd.family]))
    fun _ => rfl) fun _ g' w₁ m₁ hi₁ h => ?_
  obtain ⟨rfl, hr⟩ := h.now hi₁
  split
  · refine Discipline.Keeps.bind (keeps_await_ok (quiet_neutral rfl (by simp [Cmd.family]))
      fun _ => rfl) fun _ g' w₂ m₂ hi₂ h => ?_
    obtain ⟨rfl, hr₂⟩ := h.now hi₂
    exact hrest (hs.later (hr.trans hr₂).media)
  · exact hrest (hs.later hr.media)

theorem delete_books (hw : WorksFor env userId s g) (hdel : g.deleting = true) (id : String) :
    (booksDiscipline env userId).Keeps (delete id s) g w m (SameBalance g) (SameBalance g) := by
  refine Discipline.Keeps.bind (findActive_books hdel id) fun media g' w₁ m₁ hi₁ h => ?_
  obtain ⟨rfl, hs⟩ := h.now hi₁
  have hw' : WorksFor env userId s { g with found := some media } := hw
  refine keeps_sync_bind (fun _ _ _ _ _ _ => rfl) fun _ hown => ?_
  have ho := enforceOwner_eq_ok.mp hown
  refine Discipline.Keeps.bind ((softDelete_books hw' rfl hs ho).mono (fun _ _ _ _ _ h => h)
    fun _ _ _ _ _ h => ?_) fun _ g' w₂ m₂ hi₂ h => ?_
  · rw [h.1]
  · obtain ⟨rfl, hs₂⟩ := h.now hi₂
    refine (removeDeleted_books hw' hs₂ ho).mono (fun _ _ _ _ _ h => ?_) fun _ _ _ _ _ h => ?_
    · rw [h]
    · rw [h]

/-- What arrives from outside; the quota is charged and released from within only. -/
def Call.isRequest : Call → Bool
  | .recordUpload _ _ | .recordDelete _ _ => false
  | _ => true

theorem worksFor_start {x : Call} (hs : x.bookUser? = some s) :
    WorksFor env userId s ((books env userId).start x) := by
  simp [WorksFor, books, hs]

theorem handle_books (x : Call) (hx : x.isRequest = true) :
    (booksDiscipline env userId).Keeps (handle env x) ((books env userId).start x) w m
      (SameBalance ((books env userId).start x)) (SameBalance ((books env userId).start x)) := by
  have hget (u : String) (h : ((books env userId).start x).deleting = false) :=
    @getOrCreateQuota_books env userId u w ((books env userId).start x) m
  cases x with
  | upload ownerId file context thumbnailFile sharedWith =>
    refine Discipline.Keeps.map (upload_of_held (E := fun g' _ _ => g'.balance = 0)
      (fun g c hc => quiet_neutral (by rw [hc]; rfl) (by simp [hc])) (fun _ _ _ _ => rfl)
      (fun _ _ _ _ h => h) fun w' m' _ _ => (uploadHeld_books (worksFor_start rfl) rfl file
        context thumbnailFile sharedWith).mono (fun _ _ _ _ _ h => ?_) fun _ _ _ _ _ h => ?_)
      fun _ _ _ _ _ h => h
    · rw [h]; rfl
    · rw [h]; rfl
  | delete id requesterId =>
    exact (delete_books (worksFor_start rfl) rfl id).map fun _ _ _ _ _ h => h
  | recordUpload u n => exact absurd hx (by simp [Call.isRequest])
  | recordDelete u n => exact absurd hx (by simp [Call.isRequest])
  | resetDailyUploads =>
    exact Discipline.Keeps.map (keeps_of_touch resetDailyUploads_touches
      (quiet_neutrals (by decide) (by simp)) (fun _ _ _ _ _ => rfl) fun _ _ _ _ _ => rfl)
      fun _ _ _ _ _ h => h
  | checkQuota u n =>
    refine Discipline.Keeps.map (Q := SameBalance _) (keeps_sync_bind (fun _ _ _ _ _ _ => rfl)
      fun _ _ => Discipline.Keeps.bind ((hget u rfl).mono (fun _ _ _ _ _ h => h)
        fun _ _ _ _ _ h => ?_) fun q g' w₁ m₁ hi₁ h => ?_) fun _ _ _ _ _ h => h
    · rw [h]
    · obtain ⟨rfl, -⟩ := h.now hi₁
      exact Discipline.keeps_pure fun _ _ _ _ => rfl
  | getUserQuota u =>
    exact Discipline.Keeps.map (keeps_of_touch (MediaService.getUserQuota_touches u)
      (quiet_neutrals (by decide) (by simp)) (fun _ _ _ _ _ => rfl) fun _ _ _ _ _ => rfl)
      fun _ _ _ _ _ h => h
  | checkAndPublishQuotaAlert u =>
    refine Discipline.Keeps.map (Q := SameBalance _) (Discipline.Keeps.bind ((hget u rfl).mono
      (fun _ _ _ _ _ h => h) fun _ _ _ _ _ h => ?_) fun q g' w₁ m₁ hi₁ h => ?_)
      fun _ _ _ _ _ h => h
    · rw [h]
    · obtain ⟨rfl, -⟩ := h.now hi₁
      split
      · exact Discipline.keeps_pure fun _ _ _ _ => rfl
      · exact keeps_of_touch (publishQuotaAlerts_touches _ _ _ _)
          (quiet_neutrals (by decide) (by simp)) (fun _ _ _ _ _ => rfl) fun _ _ _ _ _ => rfl
  | _ =>
    exact keeps_of_touch (handle_touches_of_not_usesQuota env rfl)
      (quiet_neutrals (by decide) fun _ => rfl) (fun _ _ _ _ _ => rfl) fun _ _ _ _ _ => rfl

end Bodies

/-! Runs -/

/-- The steps of a run: requests arrive, a release finds what it takes back, and a soft delete
finds the row active. -/
def BooksAllowed (env : Env) (userId : String) (p : ServicePool) : Label Call Act → Prop
  | .call x => x.isRequest = true
  | .step i => ∀ c ∈ p.nextCmd i,
      ReleaseCovered env userId p.world c ∧ DeletesActive env userId p.world c
  | .act _ => True

instance (env : Env) (userId : String) (p : ServicePool) (l : Label Call Act) :
    Decidable (BooksAllowed env userId p l) :=
  match l with
  | .call _ => inferInstanceAs (Decidable (_ = _))
  | .step i => inferInstanceAs (Decidable (∀ c ∈ p.nextCmd i, _))
  | .act _ => inferInstanceAs (Decidable True)

theorem callable_books {env : Env} {userId : String} {x : Call} (hx : x.isRequest = true) :
    (booksDiscipline env userId).Callable (fun _ _ g _ _ => g.balance = 0) x := by
  refine ⟨rfl, fun w m _ => (handle_books x hx).upholds.mono fun r g w m _ h => ?_⟩
  cases r <;> exact h

theorem booksInv_act {env : Env} {userId : String} {w : World} {m : ℤ × ℤ} (a : Act)
    (hi : BooksInv env userId w m) :
    BooksInv env userId (a.apply w) m ∧ BooksLater userId w (a.apply w) := by
  have hm := act_media a w
  have hq := act_quotas a w
  refine ⟨⟨?_, fun id m₀ h => hi.ownerId id m₀ (hm ▸ h), fun s e hs he => ?_,
    fun id m₀ h ho => ?_⟩, ⟨MediaLater.of_eq hm, fun h => ?_⟩⟩
  · have hb := hi.balance
    simpa only [recorded, activeTotal, hm, hq] using hb
  · rw [hq]
    exact hi.entryRow s e hs (act_quotaCache he)
  · rw [hq]
    exact hi.mediaRow id m₀ (hm ▸ h) ho
  · rwa [hq]

theorem books_sound (env : Env) (userId : String) : (booksDiscipline env userId).Sound
    (fun _ _ g _ _ => g.balance = 0) (BooksAllowed env userId) where
  call p x hok := callable_books hok
  fork c x hx := by
    cases c <;> simp only [service, List.not_mem_nil, List.mem_singleton] at hx
    subst hx
    exact callable_books rfl
  act p a m hok hi := booksInv_act a hi
  step p i x log c k hok ht := hok c (by simp [Pool.nextCmd, ht])

/-- Requests of other users never carry a balance. -/
theorem books_of_other {env : Env} {userId : String} {t : ServiceThread}
    (h : t.call.bookUser?.bind env.uuidIn ≠ some userId) :
    ((books env userId).of t).balance = 0 := by
  have hnext (g : BookWork) (c : Cmd) (r : c.Reply) (hg : ¬ g.mine = true ∧ g.balance = 0) :
      ¬ (g.next c r).mine = true ∧ (g.next c r).balance = 0 := by
    have hadd (d : ℤ × ℤ) : ¬ (g.add d).mine = true ∧ (g.add d).balance = 0 := by
      rw [add_of_not_mine hg.1]
      exact hg
    unfold BookWork.next
    split <;> (try split) <;> first | exact hg | exact hadd _
  have hstart : ¬ ((books env userId).start t.call).mine = true ∧
      ((books env userId).start t.call).balance = 0 := ⟨by simp [books, h], rfl⟩
  suffices hlog : ∀ (log : List (Event Cmd Cmd.Reply)) (g : BookWork),
      ¬ g.mine = true ∧ g.balance = 0 →
      (log.foldl (fun g e => (books env userId).next g e.1 e.2) g).balance = 0 from
    hlog t.log _ hstart
  intro log
  induction log with
  | nil => exact fun g hg => hg.2
  | cons e log ih => exact fun g hg => ih _ (hnext g e.1 e.2 hg)

/-- No upload or delete of the user is in flight. -/
def NoRequestOf (env : Env) (userId : String) (p : ServicePool) : Prop :=
  ∀ t ∈ p.threads, t.call.bookUser?.bind env.uuidIn = some userId → t.outcome.isSome = true

instance (env : Env) (userId : String) (p : ServicePool) : Decidable (NoRequestOf env userId p) :=
  inferInstanceAs (Decidable (∀ _ ∈ _, _))

/-- As long as no release is clamped and no row is deleted twice, the quota row records exactly
the active media of the user whenever none of his requests is in flight. -/
theorem quota_conserved (env : Env) (userId : String) (p : ServicePool)
    (h : (service env).Runs (BooksAllowed env userId) ⟨World.empty, []⟩ p)
    (hrest : NoRequestOf env userId p) :
    recorded userId p.world = (((activeRows userId p.world).map fun m => (m.blobSize : ℤ)).sum,
      ((activeRows userId p.world).length : ℤ)) := by
  have hstart : (booksDiscipline env userId).inv World.empty 0 :=
    ⟨rfl, fun id m h => absurd h (by simp [World.empty]),
      fun s e _ h => absurd h (by simp [World.empty]),
      fun id m h => absurd h (by simp [World.empty])⟩
  have hp := ((Discipline.holds_of_empty hstart).runs (books_sound env userId) h).1
  have hzero : (books env userId).total p = 0 := by
    refine List.sum_eq_zero fun n hn => ?_
    obtain ⟨t, ht, rfl⟩ := List.mem_map.mp hn
    by_cases hc : t.call.bookUser?.bind env.uuidIn = some userId
    · obtain ⟨a, ha⟩ := Option.isSome_iff_exists.mp (hrest t ht hc)
      exact hp.outcome ht ha
    · exact books_of_other hc
  have hb := hp.inv.balance
  rw [show (booksDiscipline env userId).total p = 0 from hzero, add_zero] at hb
  rw [hb, activeTotal_eq]

/-- An opaque file of one byte. -/
def oneByte : File := ⟨"application/octet-stream", 1, some [0], none⟩

/-- An upload of one byte, and its delete once it has returned. -/
def uploadThenDelete : List (Label Call Act) :=
  .call (.upload (exampleId 7) oneByte .MESSAGE none none) :: List.replicate 20 (.step 0) ++
    .call (.delete (exampleId 1) (exampleId 7)) :: List.replicate 6 (.step 2)

theorem quota_conserved_after_delete : ∃ p, (service exampleEnv).play
    (BooksAllowed exampleEnv (exampleId 7)) ⟨World.empty, []⟩ uploadThenDelete = some p ∧
    recorded (exampleId 7) p.world =
      (((activeRows (exampleId 7) p.world).map fun m => (m.blobSize : ℤ)).sum,
        ((activeRows (exampleId 7) p.world).length : ℤ)) := by
  have hplay : (((service exampleEnv).play (BooksAllowed exampleEnv (exampleId 7))
      ⟨World.empty, []⟩ uploadThenDelete).filter fun p =>
        NoRequestOf exampleEnv (exampleId 7) p).isSome = true := by
    decide +kernel
  obtain ⟨p, hp⟩ := Option.isSome_iff_exists.mp hplay
  simp only [Option.filter_eq_some_iff, decide_eq_true_eq] at hp
  obtain ⟨hp, hrest⟩ := hp
  exact ⟨p, hp, quota_conserved exampleEnv (exampleId 7) p (System.runs_of_play hp) hrest⟩

/-! A delete can overtake the charge of the upload -/

/-- Only uploads and deletes of one user arrive. -/
def bookRequest (userId : String) : Label Call Act → Bool
  | .call x => x.bookUser? = some userId
  | _ => true

/-- The row of the upload is saved; its owner deletes it, and the release is clamped at 0; then
the upload is charged. -/
def deleteOvertakes : List (Label Call Act) :=
  .call (.upload (exampleId 7) oneByte .MESSAGE none none) :: List.replicate 12 (.step 0) ++
    .call (.delete (exampleId 1) (exampleId 7)) :: List.replicate 6 (.step 1) ++
      List.replicate 8 (.step 0)

/-- The quota row can go on counting media that are gone. -/
theorem quota_not_conserved :
    ¬ ∀ (env : Env) (userId : String) (p : ServicePool),
      (service env).Runs (fun _ l => bookRequest userId l = true) ⟨World.empty, []⟩ p →
      NoRequestOf env userId p →
      recorded userId p.world = (((activeRows userId p.world).map fun m => (m.blobSize : ℤ)).sum,
        ((activeRows userId p.world).length : ℤ)) := by
  intro hall
  have hplay : (((service exampleEnv).play (fun _ l => bookRequest (exampleId 7) l = true)
      ⟨World.empty, []⟩ deleteOvertakes).filter fun p =>
        NoRequestOf exampleEnv (exampleId 7) p ∧ recorded (exampleId 7) p.world = (1, 1) ∧
          activeRows (exampleId 7) p.world = []).isSome = true := by
    decide +kernel
  obtain ⟨p, hp⟩ := Option.isSome_iff_exists.mp hplay
  simp only [Option.filter_eq_some_iff, decide_eq_true_eq] at hp
  obtain ⟨hp, hrest, hrec, hact⟩ := hp
  have h := hall exampleEnv (exampleId 7) p (System.runs_of_play hp) hrest
  rw [hrec, hact] at h
  exact absurd h (by decide)

end WhisprMedia
