import WhisprMedia.LifecycleRules

/-! The keys that `buildPath` builds: each is the prefix of its context, the ids that were checked
and a suffix, and nothing else, so that a key tells where it comes from. -/
namespace WhisprMedia
open StorageService

/-- What stands between the prefix of a key and its suffix. -/
def keyIds (context : StorageContext) (ownerId objectId : String) : List Char :=
  match context with
  | .thumbnails => objectId.toList
  | _ => ownerId.toList ++ '/' :: objectId.toList

/-- The slashes of the template of a context. -/
def keySlashes : StorageContext → ℕ
  | .thumbnails => 1
  | _ => 2

/-- The rule's prefix matches the key. -/
def LifecycleRule.matchesKey (rule : LifecycleRule) (key : String) : Bool :=
  (rule.Prefix.getD "").toList.isPrefixOf key.toList

/-- The key consists of the prefix of its context, the checked ids and the suffix; the slashes are
those of the template. -/
structure Confined (context : StorageContext) (ownerId objectId key : String) : Prop where
  ownerId_ok : UUID_PATTERN ownerId = true
  objectId_ok : UUID_PATTERN objectId = true
  text : key.toList = (keyPrefix context).toList ++ (keyIds context ownerId objectId ++
    objectSuffix context)
  slashes : key.toList.count '/' = keySlashes context
  noDots : ¬ ['.', '.'] <:+: key.toList

/-! The characters of a uuid -/

theorem uuidPosition_char {i : ℕ} {c : Char} (h : uuidPosition i c = true) :
    c = '-' ∨ isHexDigit c = true := by
  unfold uuidPosition at h
  split_ifs at h
  · exact Or.inl (of_decide_eq_true h)
  · -- the version is a digit from 1 to 5
    right
    obtain ⟨h1, h5⟩ := Bool.and_eq_true_iff.mp h
    have hlow : '0' ≤ c := Char.le_trans (show '0' ≤ '1' by decide) (of_decide_eq_true h1)
    have hhigh : c ≤ '9' := Char.le_trans (of_decide_eq_true h5) (show '5' ≤ '9' by decide)
    simp [isHexDigit, hlow, hhigh]
  · -- the variant is one of six digits
    right
    simp only [Bool.or_eq_true, decide_eq_true_eq] at h
    rcases h with ((((rfl | rfl) | rfl) | rfl) | rfl) | rfl <;> decide
  · exact Or.inr h

theorem uuid_char {s : String} (h : UUID_PATTERN s = true) {c : Char} (hc : c ∈ s.toList) :
    c = '-' ∨ isHexDigit c = true := by
  obtain ⟨i, hi, rfl⟩ := List.mem_iff_getElem.mp hc
  have hall := List.all_eq_true.mp (Bool.and_eq_true_iff.mp h).2
  have hpos := hall (uuidPosition i s.toList[i]) (List.mem_mapIdx.mpr ⟨i, hi, rfl⟩)
  exact uuidPosition_char hpos

/-- No character of a uuid is one of those that the templates put around it. -/
theorem uuid_count {s : String} (h : UUID_PATTERN s = true) {c : Char} (hdash : c ≠ '-')
    (hhex : isHexDigit c = false) : s.toList.count c = 0 := by
  apply List.count_eq_zero.mpr
  intro hc
  rcases uuid_char h hc with hc | hc
  · exact hdash hc
  · rw [hc] at hhex
    exact absurd hhex (by decide)

/-! Keys -/

section Keys
variable {c : StorageContext} {o o' i i' key : String}

theorem confined_of_buildPath (h : buildPath c o i = .ok key) : Confined c o i key := by
  have hs (s : String) : toString s = s := rfl
  unfold buildPath at h
  split at h
  · exact absurd h (by simp)
  · next ho =>
    split at h
    · exact absurd h (by simp)
    · next hi =>
      have ho : UUID_PATTERN o = true := by simpa using ho
      have hi : UUID_PATTERN i = true := by simpa using hi
      have htext : key.toList = (keyPrefix c).toList ++ (keyIds c o i ++ objectSuffix c) := by
        cases c <;> obtain rfl := Except.ok.inj h <;>
          simp [keyPrefix, keyIds, objectSuffix, hs, String.toList_append]
      -- the ids bring no slash and no dot with them
      have hslash : (keyIds c o i).count '/' = keySlashes c - 1 := by
        cases c <;> simp [keyIds, keySlashes, uuid_count ho, uuid_count hi, isHexDigit]
      have hdot : (keyIds c o i).count '.' = 0 := by
        cases c <;> simp [keyIds, uuid_count ho, uuid_count hi, isHexDigit]
      refine ⟨ho, hi, htext, ?_, ?_⟩
      · rw [htext, List.count_append, List.count_append, hslash]
        cases c <;> rfl
      · intro hinfix
        have hle : ['.', '.'].count '.' ≤ key.toList.count '.' := hinfix.sublist.count_le '.'
        rw [htext, List.count_append, List.count_append, hdot] at hle
        cases c <;> exact absurd hle (by decide)

/-- The owner of a key, of which only thumbnails tell nothing. -/
theorem Confined.ownerId_eq (h : Confined c o i key) (h' : Confined c o' i' key)
    (hc : c ≠ .thumbnails) : o = o' := by
  have hids : keyIds c o i ++ objectSuffix c = keyIds c o' i' ++ objectSuffix c :=
    List.append_cancel_left (h.text.symm.trans h'.text)
  have hids : keyIds c o i = keyIds c o' i' := List.append_cancel_right hids
  -- uuids have one length, so the ids are cut at the same place
  have hlen : o.toList.length = o'.toList.length :=
    (uuid_length h.ownerId_ok).trans (uuid_length h'.ownerId_ok).symm
  have howner : o.toList = o'.toList := by
    cases c with
    | thumbnails => exact absurd rfl hc
    | _ => exact List.append_inj_left hids hlen
  exact String.toList_inj.mp howner

theorem Confined.under (h : Confined c o i key) : Under c key := ⟨_, h.text.symm⟩

theorem matchesKey_iff {id : String} {days : Int} : (LifecycleService.expiryRule id (keyPrefix c)
    days).matchesKey key = true ↔ Under c key := List.isPrefixOf_iff_prefix

/-- Of the prefixes of the contexts, only its own matches a key. -/
theorem Confined.matchesKey_iff (h : Confined c o i key) (c' : StorageContext) {id : String}
    {days : Int} :
    (LifecycleService.expiryRule id (keyPrefix c') days).matchesKey key = true ↔ c = c' := by
  rw [WhisprMedia.matchesKey_iff]
  constructor
  · exact under_unique h.under
  · intro hc
    exact hc ▸ h.under

end Keys

/-- Keys are confined to the prefix of their context, and equal keys have the same context, the
same object id and, thumbnails apart, the same owner. The lifecycle rules match by context. -/
theorem storage_keys_injective {c c' : StorageContext} {o o' i i' key key' : String}
    (h : buildPath c o i = .ok key) (h' : buildPath c' o' i' = .ok key') :
    (key = key' → c = c' ∧ i = i' ∧ (c ≠ .thumbnails → o = o')) ∧ Confined c o i key ∧
    ∀ days, ((LifecycleService.expiryRule "messages-expiry" "messages/" days).matchesKey key = true ↔
        c = .messages) ∧
      ((LifecycleService.expiryRule "thumbnails-expiry" "thumbnails/" days).matchesKey key = true ↔
        c = .thumbnails) := by
  have hkey := confined_of_buildPath h
  refine ⟨?_, hkey, fun days => ⟨?_, ?_⟩⟩
  · rintro rfl
    have hkey' := confined_of_buildPath h'
    obtain rfl : c = c' := under_unique hkey.under hkey'.under
    exact ⟨rfl, buildPath_objectId h h', hkey.ownerId_eq hkey'⟩
  · exact hkey.matchesKey_iff .messages
  · exact hkey.matchesKey_iff .thumbnails

/-- Two users' messages. -/
theorem storage_keys_injective_messages : ∃ key key', buildPath .messages (exampleId 1)
      (exampleId 2) = .ok key ∧ buildPath .messages (exampleId 3) (exampleId 2) = .ok key' ∧
    (key = key' → exampleId 1 = exampleId 3) ∧ Confined .messages (exampleId 1) (exampleId 2) key := by
  have h : buildPath .messages (exampleId 1) (exampleId 2) =
      .ok s!"messages/{exampleId 1}/{exampleId 2}.bin" := by decide +kernel
  have h' : buildPath .messages (exampleId 3) (exampleId 2) =
      .ok s!"messages/{exampleId 3}/{exampleId 2}.bin" := by decide +kernel
  obtain ⟨hsame, hkey, -⟩ := storage_keys_injective h h'
  exact ⟨_, _, h, h', fun heq => (hsame heq).2.2 (by decide), hkey⟩

end WhisprMedia
