import WhisprMedia.Entities

/-! Keys of the bucket: the UUID check and the four templates of `buildPath`. -/
namespace WhisprMedia

inductive StorageContext where
  | messages
  | avatars
  | group_icons
  | thumbnails
  deriving DecidableEq, Repr

/-- `[0-9a-f]` under the `i` flag. -/
def isHexDigit (c : Char) : Bool :=
  ('0' ≤ c && c ≤ '9') || ('a' ≤ c && c ≤ 'f') || ('A' ≤ c && c ≤ 'F')

/-- One position of `UUID_PATTERN`: dashes at 8, 13, 18, 23, the version digit at 14 and the
variant digit at 19, hexadecimal digits elsewhere. -/
def uuidPosition (i : Nat) (c : Char) : Bool :=
  if i = 8 || i = 13 || i = 18 || i = 23 then c = '-'
  else if i = 14 then '1' ≤ c && c ≤ '5'
  else if i = 19 then c = '8' || c = '9' || c = 'a' || c = 'b' || c = 'A' || c = 'B'
  else isHexDigit c

/-- `UUID_PATTERN.test(s)`. -/
def UUID_PATTERN (s : String) : Bool :=
  s.toList.length = 36 && (s.toList.mapIdx uuidPosition).all id

namespace StorageService

def buildPath (context : StorageContext) (ownerId objectId : String) : Except Err String :=
  if !UUID_PATTERN ownerId then
    .error (.error s!"Invalid ownerId for storage path: {ownerId}")
  else if !UUID_PATTERN objectId then
    .error (.error s!"Invalid objectId for storage path: {objectId}")
  else
    match context with
    | .messages => .ok s!"messages/{ownerId}/{objectId}.bin"
    | .avatars => .ok s!"avatars/{ownerId}/{objectId}"
    | .group_icons => .ok s!"group_icons/{ownerId}/{objectId}"
    | .thumbnails => .ok s!"thumbnails/{objectId}.bin"

/-! The object id can be read off a key -/

/-- An id of 36 characters and what the templates put after it. -/
def objectSuffix : StorageContext → List Char
  | .messages | .thumbnails => ".bin".toList
  | .avatars | .group_icons => []

theorem uuid_length {s : String} (h : UUID_PATTERN s = true) : s.toList.length = 36 := by
  have h' := (Bool.and_eq_true_iff.mp h).1
  simpa using h'

/-- A uuid ends in a hexadecimal digit. -/
theorem uuid_last {s : String} (h : UUID_PATTERN s = true) :
    ∃ pre c, s.toList = pre ++ [c] ∧ isHexDigit c = true := by
  have hlen := uuid_length h
  obtain ⟨pre, c, hs⟩ := List.eq_nil_or_concat s.toList |>.resolve_left (by
    intro hnil
    rw [hnil] at hlen
    exact absurd hlen (by decide))
  rw [List.concat_eq_append] at hs
  refine ⟨pre, c, hs, ?_⟩
  have hall := (Bool.and_eq_true_iff.mp h).2
  have hpre : pre.length = 35 := by
    rw [hs, List.length_append, List.length_singleton] at hlen
    omega
  rw [List.all_eq_true] at hall
  have hc := hall (uuidPosition 35 c) (List.mem_mapIdx.mpr ⟨35, by omega, by simp [hs, hpre]⟩)
  simpa [uuidPosition] using hc

theorem buildPath_eq {context : StorageContext} {ownerId objectId path : String}
    (h : buildPath context ownerId objectId = .ok path) :
    UUID_PATTERN objectId = true ∧
      ∃ pre, path.toList = pre ++ (objectId.toList ++ objectSuffix context) := by
  unfold buildPath at h
  split at h
  · exact absurd h (by simp)
  · split at h
    · exact absurd h (by simp)
    · next ho =>
      have hs (s : String) : toString s = s := rfl
      refine ⟨by simpa using ho, ?_⟩
      cases context <;> (obtain rfl := Except.ok.inj h)
      · exact ⟨"messages/".toList ++ ownerId.toList ++ "/".toList, by
          simp only [hs, String.toList_append, objectSuffix, List.append_assoc]⟩
      · exact ⟨"avatars/".toList ++ ownerId.toList ++ "/".toList, by
          simp only [hs, String.toList_append, objectSuffix, List.append_assoc, List.append_nil]⟩
      · exact ⟨"group_icons/".toList ++ ownerId.toList ++ "/".toList, by
          simp only [hs, String.toList_append, objectSuffix, List.append_assoc, List.append_nil]⟩
      · exact ⟨"thumbnails/".toList, by
          simp only [hs, String.toList_append, objectSuffix, List.append_assoc]⟩

/-- Whether a key can be built does not depend on the context. -/
theorem buildPath_of_ok {c : StorageContext} (c' : StorageContext) {ownerId objectId path : String}
    (h : buildPath c ownerId objectId = .ok path) :
    ∃ path', buildPath c' ownerId objectId = .ok path' := by
  unfold buildPath at h ⊢
  split at h
  · exact absurd h (by simp)
  · next ho =>
    split at h
    · exact absurd h (by simp)
    · next hi =>
      rw [if_neg ho, if_neg hi]
      cases c' <;> exact ⟨_, rfl⟩

/-- Equal keys are keys of one object id. -/
theorem buildPath_objectId {c c' : StorageContext} {o o' i i' path : String}
    (h : buildPath c o i = .ok path) (h' : buildPath c' o' i' = .ok path) : i = i' := by
  obtain ⟨hi, pre, hp⟩ := buildPath_eq h
  obtain ⟨hi', pre', hp'⟩ := buildPath_eq h'
  have heq : pre ++ (i.toList ++ objectSuffix c) = pre' ++ (i'.toList ++ objectSuffix c') :=
    hp.symm.trans hp'
  have hlen := uuid_length hi
  have hlen' := uuid_length hi'
  -- a key that ends in ".bin" does not end in a hexadecimal digit
  have hends {pre pre' j j' : List Char} (hj : ∃ k c, j = k ++ [c] ∧ isHexDigit c = true)
      (h : pre ++ (j ++ []) = pre' ++ (j' ++ ".bin".toList)) : False := by
    obtain ⟨k, c, rfl, hc⟩ := hj
    have h2 : (pre ++ k) ++ [c] = (pre' ++ j' ++ ".bi".toList) ++ ['n'] := by
      simpa [List.append_assoc] using h
    have hcn : c = 'n' := (List.append_inj_right' h2 rfl |> List.cons.inj).1
    rw [hcn] at hc
    exact absurd hc (by decide)
  have hsame (hs : objectSuffix c = objectSuffix c') : i = i' := by
    rw [hs] at heq
    have h2 := List.append_inj_right' heq (by simp [hlen, hlen'])
    exact String.toList_inj.mp (List.append_cancel_right h2)
  cases c <;> cases c' <;> first
    | exact hsame rfl
    | exact (hends (uuid_last hi) heq).elim
    | exact (hends (uuid_last hi') heq.symm).elim

/-! Prefixes -/

def keyPrefix : StorageContext → String
  | .messages => "messages/"
  | .avatars => "avatars/"
  | .group_icons => "group_icons/"
  | .thumbnails => "thumbnails/"

/-- The key lies under the prefix. -/
def Under (c : StorageContext) (key : String) : Prop := (keyPrefix c).toList <+: key.toList

theorem under_unique {c c' : StorageContext} {key : String} (h : Under c key) (h' : Under c' key) :
    c = c' := by
  obtain ⟨t, ht⟩ := h
  obtain ⟨t', ht'⟩ := h'
  have heq := ht.trans ht'.symm
  cases c <;> cases c' <;> first
    | rfl
    | exact absurd (congrArg List.head? heq) (by simp [keyPrefix])

theorem under_of_buildPath {c : StorageContext} {ownerId objectId path : String}
    (h : buildPath c ownerId objectId = .ok path) : Under c path := by
  have hs (s : String) : toString s = s := rfl
  unfold buildPath at h
  split at h
  · exact absurd h (by simp)
  · split at h
    · exact absurd h (by simp)
    · cases c <;> obtain rfl := Except.ok.inj h <;>
        simp only [Under, keyPrefix, hs, String.toList_append, List.append_assoc]
      · exact ⟨ownerId.toList ++ ("/".toList ++ (objectId.toList ++ ".bin".toList)), rfl⟩
      · exact ⟨ownerId.toList ++ ("/".toList ++ objectId.toList), rfl⟩
      · exact ⟨ownerId.toList ++ ("/".toList ++ objectId.toList), rfl⟩
      · exact ⟨objectId.toList ++ ".bin".toList, rfl⟩

end StorageService

/-- A key that is built for the object id. -/
def PathOf (id path : String) : Prop :=
  ∃ context ownerId, StorageService.buildPath context ownerId id = .ok path

/-- Keys of one path are keys of one id. -/
theorem PathOf.id_eq {id id' path : String} (h : PathOf id path) (h' : PathOf id' path) :
    id = id' := by
  obtain ⟨c, o, hp⟩ := h
  obtain ⟨c', o', hp'⟩ := h'
  exact StorageService.buildPath_objectId hp hp'

/-- A thumbnail has a prefix of its own. -/
theorem buildPath_thumbnails_ne {c : StorageContext} {o o' i i' p p' : String}
    (hc : c ≠ .thumbnails) (h : StorageService.buildPath c o i = .ok p)
    (h' : StorageService.buildPath .thumbnails o' i' = .ok p') : p ≠ p' := by
  rintro rfl
  exact hc (StorageService.under_unique (StorageService.under_of_buildPath h)
    (StorageService.under_of_buildPath h'))

/-- A key is one of the two that a row refers to. -/
def Media.RefersTo (m : Media) (path : String) : Prop :=
  m.storagePath = path ∨ m.thumbnailPath = some path

end WhisprMedia
