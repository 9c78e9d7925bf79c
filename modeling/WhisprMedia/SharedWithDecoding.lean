import WhisprMedia.JsonRoundTrip
import WhisprMedia.ServiceRules
import Mathlib.Data.List.DropRight

/-! The wire forms of `sharedWith`: a form field that is a list already, a JSON text or entries
separated by commas, and how `parseStringArray` decodes each. -/
namespace WhisprMedia
open JsonText

/-! JavaScript values, as far as `String` and `Array.isArray` tell them apart -/

inductive JsValue where
  | undefined
  | null
  | bool (b : Bool)
  /-- A number, with its text. -/
  | number (text : Units)
  | string (s : Units)
  /-- An element that an array does not have. -/
  | hole
  | array (elements : List JsValue)
  | object (members : List (Units × JsValue))
  /-- Any other value, with what `String` makes of it unless it throws. -/
  | other (text : Option Units)

/-- Elements that a join leaves empty. -/
def JsValue.isNullish : JsValue → Bool
  | .undefined | .null | .hole => true
  | _ => false

def notPrimitive : Err := .error "Cannot convert object to primitive value"

mutual

/-- `String(value)`. An object with a member of its own for `toString` has no text: a member that
came out of JSON cannot be called. -/
def JsValue.text : JsValue → Except Err Units
  | .undefined | .hole => .ok (units "undefined")
  | .null => .ok (units "null")
  | .bool b => .ok (units (toString b))
  | .number text => .ok text
  | .string s => .ok s
  | .array elements => joinText elements
  | .object members =>
    if members.any fun m => m.1 = units "toString" then .error notPrimitive
    else .ok (units "[object Object]")
  | .other (some text) => .ok text
  | .other none => .error notPrimitive

/-- `elements.join()`. -/
def joinText : List JsValue → Except Err Units
  | [] => .ok []
  | [x] => if x.isNullish then .ok [] else x.text
  | x :: y :: ys => do
    let s ← if x.isNullish then .ok [] else x.text
    let t ← joinText (y :: ys)
    pure (s ++ 0x2c :: t)

end

/-- `elements.map(String)`; it leaves holes alone. -/
def mapString : List JsValue → Except Err (List JsValue)
  | [] => .ok []
  | .hole :: elements => do
    let texts ← mapString elements
    pure (.hole :: texts)
  | x :: elements => do
    let s ← x.text
    let texts ← mapString elements
    pure (.string s :: texts)

mutual

/-- The value of a JSON text; `numberText` is what becomes of a literal when it is read as a
number and written again. -/
def JsValue.ofJson (numberText : Number → Units) : Json → JsValue
  | .null => .null
  | .bool b => .bool b
  | .number n => .number (numberText n)
  | .string s => .string s
  | .array elements => .array (ofElements numberText elements)
  | .object members => .object (ofMembers numberText members)

def ofElements (numberText : Number → Units) : List Json → List JsValue
  | [] => []
  | x :: xs => JsValue.ofJson numberText x :: ofElements numberText xs

def ofMembers (numberText : Number → Units) : List (Units × Json) → List (Units × JsValue)
  | [] => []
  | (key, x) :: ms => (key, JsValue.ofJson numberText x) :: ofMembers numberText ms

end

/-! `parseStringArray` -/

/-- White space of `trim`; a surrogate is none. -/
def isTrimmed (c : UInt16) : Bool := isJsSpace (Char.ofNat c.toNat)

/-- `s.trim()`. -/
def trimUnits (s : Units) : Units := (s.dropWhile isTrimmed).rdropWhile isTrimmed

/-- The branch for strings. -/
def parseField (numberText : Number → Units) (s : Units) : JsValue :=
  let trimmed := trimUnits s
  if trimmed.head? = some 0x5b then
    match parse trimmed with
    | some (.array elements) =>
      match mapString (ofElements numberText elements) with
      | .ok texts => .array texts
      | .error _ => .string trimmed
    | _ => .string trimmed
  else .array ((((trimmed.splitOn 0x2c).map trimUnits).filter fun t => t ≠ []).map .string)

def parseStringArray (numberText : Number → Units) : JsValue → Except Err JsValue
  | .undefined | .null => .ok .undefined
  | .array elements => do
    let texts ← mapString elements
    pure (.array texts)
  | .string s => if s = [] then .ok .undefined else .ok (parseField numberText s)
  | value => .ok value

/-! Trimming -/

section Trim
variable {s t : Units} {c : UInt16}

theorem trimUnits_cons (hc : isTrimmed c = true) : trimUnits (c :: s) = trimUnits s := by
  unfold trimUnits
  rw [List.dropWhile_cons_of_pos hc]

theorem trimUnits_concat (hc : isTrimmed c = true) : trimUnits (s ++ [c]) = trimUnits s := by
  induction s with
  | nil => rw [List.nil_append, trimUnits_cons hc]
  | cons d s ih =>
    by_cases hd : isTrimmed d = true
    · rw [List.cons_append, trimUnits_cons hd, trimUnits_cons hd, ih]
    · unfold trimUnits
      rw [List.cons_append, List.dropWhile_cons_of_neg hd, List.dropWhile_cons_of_neg hd,
        ← List.cons_append, List.rdropWhile_concat_pos _ _ _ hc]

/-- A text that neither begins nor ends with white space. -/
theorem trimUnits_of_ends (hh : ∀ c ∈ s.head?, isTrimmed c = false)
    (hl : ∀ c ∈ s.getLast?, isTrimmed c = false) : trimUnits s = s := by
  have hdrop : s.dropWhile isTrimmed = s := by
    cases s with
    | nil => rfl
    | cons c s => exact List.dropWhile_cons_of_neg (by simp [hh c rfl])
  unfold trimUnits
  rw [hdrop, List.rdropWhile_eq_self_iff]
  intro hne
  have hlast := hl _ (List.getLast?_eq_some_getLast hne)
  simp [hlast]

theorem trimUnits_pad {before behind : Units} (hb : ∀ c ∈ before, isTrimmed c = true)
    (ha : ∀ c ∈ behind, isTrimmed c = true) :
    trimUnits (before ++ s ++ behind) = trimUnits s := by
  have hright : ∀ t, trimUnits (t ++ behind) = trimUnits t := by
    intro t
    induction behind using List.reverseRecOn with
    | nil => rw [List.append_nil]
    | append_singleton behind c ih =>
      rw [← List.append_assoc, trimUnits_concat (ha c (by simp))]
      exact ih fun d hd => ha d (List.mem_append_left _ hd)
  rw [hright]
  induction before with
  | nil => rfl
  | cons c before ih =>
    rw [List.cons_append, trimUnits_cons (hb c List.mem_cons_self)]
    exact ih fun d hd => hb d (List.mem_cons_of_mem c hd)

theorem trimUnits_space (h : ∀ c ∈ s, isTrimmed c = true) : trimUnits s = [] := by
  have hpad := @trimUnits_pad [] s [] h (by simp)
  rw [List.append_nil, List.append_nil] at hpad
  exact hpad

/-- A trimmed text does not change when it is trimmed again. -/
theorem trimUnits_idem (s : Units) : trimUnits (trimUnits s) = trimUnits s := by
  apply trimUnits_of_ends
  · intro c hc
    have hpre : trimUnits s <+: s.dropWhile isTrimmed := List.rdropWhile_prefix _ _
    have hhead : c ∈ (s.dropWhile isTrimmed).head? := by
      obtain ⟨rest, hrest⟩ := hpre
      rw [← hrest]
      cases ht : trimUnits s with
      | nil =>
        rw [ht] at hc
        exact absurd hc (by simp)
      | cons d t =>
        rw [ht] at hc
        exact hc
    have hnot := List.head?_dropWhile_not isTrimmed s
    rw [Option.mem_def.mp hhead] at hnot
    exact hnot
  · intro c hc
    have hne : trimUnits s ≠ [] := by
      intro hnil
      rw [hnil] at hc
      exact absurd hc (by simp)
    have hlast := List.rdropWhile_last_not isTrimmed (s.dropWhile isTrimmed) hne
    rw [List.getLast?_eq_some_getLast hne] at hc
    rw [← Option.some.inj hc]
    exact Bool.eq_false_iff.mpr hlast

end Trim

/-! Splitting -/

/-- Two entries that differ by a white space at the end at most. -/
def Padded (c : UInt16) (t t' : Units) : Prop := t = t' ∨ t = t' ++ [c]

theorem Padded.cons {c d : UInt16} {t t' : Units} (h : Padded c t t') :
    Padded c (d :: t) (d :: t') := by
  rcases h with rfl | rfl
  · exact Or.inl rfl
  · exact Or.inr rfl

theorem splitOn_concat {a c : UInt16} (hca : c ≠ a) (s : Units) :
    List.Forall₂ (Padded c) ((s ++ [c]).splitOn a) (s.splitOn a) := by
  induction s with
  | nil =>
    rw [List.nil_append, List.splitOn_eq_singleton (by simpa using hca.symm), List.splitOn_nil]
    exact .cons (Or.inr rfl) .nil
  | cons d s ih =>
    rw [List.cons_append, List.splitOn_cons_eq_if_modifyHead, List.splitOn_cons_eq_if_modifyHead]
    by_cases hd : (d == a) = true
    · rw [if_pos hd, if_pos hd]
      exact .cons (Or.inl rfl) ih
    · rw [if_neg hd, if_neg hd]
      generalize (s ++ [c]).splitOn a = ts at ih
      generalize s.splitOn a = ts' at ih
      cases ih with
      | nil => exact .nil
      | cons hhead htail => exact .cons hhead.cons htail

theorem map_trimUnits_of_padded {c : UInt16} (hc : isTrimmed c = true) {ts ts' : List Units}
    (h : List.Forall₂ (Padded c) ts ts') : ts.map trimUnits = ts'.map trimUnits := by
  induction h with
  | nil => rfl
  | cons hhead _ ih =>
    rw [List.map_cons, List.map_cons, ih]
    rcases hhead with rfl | rfl
    · rfl
    · rw [trimUnits_concat hc]

/-- White space around a text is white space around its first and its last entry. -/
theorem splitOn_trim {a : UInt16} (ha : isTrimmed a = false) (s : Units) :
    ((trimUnits s).splitOn a).map trimUnits = (s.splitOn a).map trimUnits := by
  have hne {c : UInt16} (hc : isTrimmed c = true) : c ≠ a := by
    rintro rfl
    rw [ha] at hc
    exact absurd hc (by simp)
  have hright (s : Units) :
      ((s.rdropWhile isTrimmed).splitOn a).map trimUnits = (s.splitOn a).map trimUnits := by
    induction s using List.reverseRecOn with
    | nil => rfl
    | append_singleton s c ih =>
      by_cases hc : isTrimmed c = true
      · rw [List.rdropWhile_concat_pos _ _ _ hc, ih]
        exact (map_trimUnits_of_padded hc (splitOn_concat (hne hc) s)).symm
      · rw [List.rdropWhile_concat_neg _ _ _ hc]
  have hleft (s : Units) :
      ((s.dropWhile isTrimmed).splitOn a).map trimUnits = (s.splitOn a).map trimUnits := by
    induction s with
    | nil => rfl
    | cons c s ih =>
      by_cases hc : isTrimmed c = true
      · rw [List.dropWhile_cons_of_pos hc, ih, List.splitOn_cons_eq_if_modifyHead,
          if_neg (by simpa using hne hc)]
        cases s.splitOn a with
        | nil => rfl
        | cons t ts =>
          rw [List.modifyHead_cons, List.map_cons, List.map_cons, trimUnits_cons hc]
      · rw [List.dropWhile_cons_of_neg hc]
  unfold trimUnits at hright hleft ⊢
  rw [hright, hleft]

/-! Strings -/

theorem mapString_strings (l : List Units) :
    mapString (l.map .string) = .ok (l.map .string) := by
  induction l with
  | nil => rfl
  | cons s l ih =>
    rw [List.map_cons, mapString]
    · rw [ih]
      rfl
    · simp

/-- What `map(String)` leaves are strings and holes. -/
theorem mapString_idem {l texts : List JsValue} (h : mapString l = .ok texts) :
    mapString texts = .ok texts := by
  induction l generalizing texts with
  | nil =>
    rw [mapString] at h
    rw [← Except.ok.inj h]
    rfl
  | cons x l ih =>
    by_cases hx : x = .hole
    · rw [hx, mapString] at h
      obtain ⟨ts, hts, hr⟩ := bind_eq_ok h
      obtain rfl := Except.ok.inj hr
      rw [mapString, ih hts]
      rfl
    · rw [mapString] at h
      · obtain ⟨s, -, h⟩ := bind_eq_ok h
        obtain ⟨ts, hts, hr⟩ := bind_eq_ok h
        obtain rfl := Except.ok.inj hr
        rw [mapString]
        · rw [ih hts]
          rfl
        · simp
      · exact hx

theorem ofElements_strings (numberText : Number → Units) (l : List Units) :
    ofElements numberText (l.map .string) = l.map .string := by
  induction l with
  | nil => rfl
  | cons s l ih =>
    rw [List.map_cons, ofElements, JsValue.ofJson, ih]
    rfl

/-! Uuids and their encodings -/

/-- Hexadecimal digits and the dash. -/
def UUID_UNITS : Units :=
  [0x30, 0x31, 0x32, 0x33, 0x34, 0x35, 0x36, 0x37, 0x38, 0x39, 0x61, 0x62, 0x63, 0x64, 0x65, 0x66,
    0x41, 0x42, 0x43, 0x44, 0x45, 0x46, 0x2d]

/-- A uuid of any version: groups of 8, 4, 4, 4 and 12 hexadecimal digits. -/
def isUuid (s : Units) : Bool :=
  s.length = 36 && s.all (fun c => UUID_UNITS.contains c) &&
    (s.mapIdx fun i c => decide (i = 8 ∨ i = 13 ∨ i = 18 ∨ i = 23) == (c == 0x2d)).all id

/-- Entries of a CSV text for a list of strings: each of them between white space, and empty
entries anywhere. -/
inductive CsvEntries : List Units → List Units → Prop
  | nil : CsvEntries [] []
  | empty {pad l entries} (hp : ∀ c ∈ pad, isTrimmed c = true) (h : CsvEntries l entries) :
      CsvEntries l (pad :: entries)
  | entry {before s behind l entries} (hb : ∀ c ∈ before, isTrimmed c = true)
      (ha : ∀ c ∈ behind, isTrimmed c = true) (h : CsvEntries l entries) :
      CsvEntries (s :: l) ((before ++ s ++ behind) :: entries)

/-- The values of the field that stand for a list of strings. -/
inductive WireForm (l : List Units) : JsValue → Prop
  | list : WireForm l (.array (l.map .string))
  | json {before behind} (hb : ∀ c ∈ before, isTrimmed c = true)
      (ha : ∀ c ∈ behind, isTrimmed c = true) :
      WireForm l (.string (before ++ stringify (.array (l.map .string)) ++ behind))
  | csv {entries} (h : CsvEntries l entries) : WireForm l (.string ([0x2c].intercalate entries))

section Decoding
variable {numberText : Number → Units} {l entries : List Units} {s : Units}

/-- A unit of a uuid is no white space, no comma and no bracket. -/
theorem uuidUnits_plain : ∀ c ∈ UUID_UNITS, isTrimmed c = false ∧ c ≠ 0x2c ∧ c ≠ 0x5b := by
  have hall : UUID_UNITS.all (fun c => !isTrimmed c && c != 0x2c && c != 0x5b) = true := by
    decide +kernel
  intro c hc
  have hplain := List.all_eq_true.mp hall c hc
  simp only [Bool.and_eq_true, Bool.not_eq_true', bne_iff_ne] at hplain
  exact ⟨hplain.1.1, hplain.1.2, hplain.2⟩

theorem uuid_units (h : isUuid s = true) : ∀ c ∈ s, c ∈ UUID_UNITS := by
  intro c hc
  simp only [isUuid, Bool.and_eq_true] at h
  simpa using List.all_eq_true.mp h.1.2 c hc

theorem uuid_ne_nil (h : isUuid s = true) : s ≠ [] := by
  rintro rfl
  exact absurd h (by decide)

theorem trimUnits_uuid (h : isUuid s = true) : trimUnits s = s :=
  trimUnits_of_ends (fun c hc => (uuidUnits_plain c (uuid_units h c (List.mem_of_mem_head? hc))).1)
    fun c hc => (uuidUnits_plain c (uuid_units h c (List.mem_of_mem_getLast? hc))).1

/-- The units of the entries are white space or units of uuids. -/
theorem CsvEntries.units (h : CsvEntries l entries) (hl : ∀ s ∈ l, isUuid s = true) :
    ∀ e ∈ entries, ∀ c ∈ e, isTrimmed c = true ∨ c ∈ UUID_UNITS := by
  induction h with
  | nil => exact fun e he => absurd he List.not_mem_nil
  | empty hp _ ih =>
    intro e he c hc
    rcases List.mem_cons.mp he with rfl | he
    · exact Or.inl (hp c hc)
    · exact ih hl e he c hc
  | entry hb ha _ ih =>
    intro e he c hc
    rcases List.mem_cons.mp he with rfl | he
    · rcases List.mem_append.mp hc with hc | hc
      · rcases List.mem_append.mp hc with hc | hc
        · exact Or.inl (hb c hc)
        · exact Or.inr (uuid_units (hl _ List.mem_cons_self) c hc)
      · exact Or.inl (ha c hc)
    · exact ih (fun s hs => hl s (List.mem_cons_of_mem _ hs)) e he c hc

/-- Trimmed and without the empty ones, the entries are the uuids. -/
theorem CsvEntries.decode (h : CsvEntries l entries) (hl : ∀ s ∈ l, isUuid s = true) :
    ((entries.map trimUnits).filter fun t => t ≠ []) = l := by
  induction h with
  | nil => rfl
  | empty hp _ ih =>
    rw [List.map_cons, trimUnits_space hp, List.filter_cons_of_neg (by simp)]
    exact ih hl
  | @entry before s behind l entries hb ha _ ih =>
    have hs := hl s List.mem_cons_self
    rw [List.map_cons, trimUnits_pad hb ha, trimUnits_uuid hs,
      List.filter_cons_of_pos (by simpa using uuid_ne_nil hs)]
    rw [ih fun t ht => hl t (List.mem_cons_of_mem _ ht)]

theorem CsvEntries.ne_nil (h : CsvEntries l entries) (hne : l ≠ []) : entries ≠ [] := by
  cases h with
  | nil => exact absurd rfl hne
  | empty => exact List.cons_ne_nil _ _
  | entry => exact List.cons_ne_nil _ _

theorem mem_intercalate {a c : UInt16} {entries : List Units} (h : c ∈ [a].intercalate entries) :
    c = a ∨ ∃ e ∈ entries, c ∈ e := by
  induction entries with
  | nil => exact absurd h (by simp [List.intercalate])
  | cons e entries ih =>
    cases entries with
    | nil =>
      rw [List.intercalate_singleton] at h
      exact Or.inr ⟨e, List.mem_cons_self, h⟩
    | cons e' entries =>
      rw [List.intercalate_cons_cons, List.mem_append, List.mem_append] at h
      rcases h with (h | h) | h
      · exact Or.inr ⟨e, List.mem_cons_self, h⟩
      · exact Or.inl (List.mem_singleton.mp h)
      · rcases ih h with h | ⟨e'', he, hc⟩
        · exact Or.inl h
        · exact Or.inr ⟨e'', List.mem_cons_of_mem e he, hc⟩

/-- No unit of such a text is an opening bracket. -/
theorem csv_no_bracket (h : CsvEntries l entries) (hl : ∀ s ∈ l, isUuid s = true) :
    (0x5b : UInt16) ∉ [0x2c].intercalate entries := by
  intro hb
  rcases mem_intercalate hb with hb | ⟨e, he, hc⟩
  · exact absurd hb (by decide)
  · rcases h.units hl e he _ hc with hspace | huuid
    · exact absurd hspace (by decide)
    · exact absurd rfl (uuidUnits_plain _ huuid).2.2

theorem parseField_csv (h : CsvEntries l entries) (hne : l ≠ []) (hl : ∀ s ∈ l, isUuid s = true) :
    parseField numberText ([0x2c].intercalate entries) = .array (l.map .string) := by
  have hunits := h.units hl
  have hcomma : ∀ e ∈ entries, (0x2c : UInt16) ∉ e := by
    intro e he hc
    rcases hunits e he _ hc with hspace | huuid
    · exact absurd hspace (by decide)
    · exact absurd rfl (uuidUnits_plain _ huuid).2.1
  have hhead : (trimUnits ([0x2c].intercalate entries)).head? ≠ some 0x5b := by
    intro hb
    have hmem := List.mem_of_mem_head? (Option.mem_def.mpr hb)
    have hsub := ((List.rdropWhile_prefix _ _).sublist.trans (List.dropWhile_sublist _)).subset hmem
    exact csv_no_bracket h hl hsub
  unfold parseField
  dsimp only
  rw [if_neg hhead, splitOn_trim (by decide), List.splitOn_intercalate _ hcomma (h.ne_nil hne),
    h.decode hl]

/-- A text of an array ends in its bracket. -/
theorem elementsText_getLast? (l : List Json) : (elementsText l).getLast? = some 0x5d := by
  induction l with
  | nil => rfl
  | cons x l ih =>
    cases l with
    | nil => rw [elementsText, List.getLast?_append, List.getLast?_singleton, Option.some_or]
    | cons y l =>
      rw [elementsText, List.getLast?_append, List.getLast?_cons, ih]
      rfl

theorem parseField_json (l : List Units) {before behind : Units}
    (hb : ∀ c ∈ before, isTrimmed c = true) (ha : ∀ c ∈ behind, isTrimmed c = true) :
    parseField numberText (before ++ stringify (.array (l.map .string)) ++ behind) =
      .array (l.map .string) := by
  have htext : stringify (.array (l.map .string)) = 0x5b :: elementsText (l.map .string) := by
    rw [stringify]
  have htrim : trimUnits (stringify (.array (l.map .string))) =
      stringify (.array (l.map .string)) := by
    rw [htext]
    apply trimUnits_of_ends
    · intro c hc
      rw [← Option.some.inj hc]
      decide
    · intro c hc
      rw [List.getLast?_cons, elementsText_getLast?] at hc
      rw [← Option.some.inj hc]
      decide
  have hparse := @parse_stringify (.array (l.map .string)) [] [] (by simp) (by simp)
  rw [List.nil_append, List.append_nil] at hparse
  unfold parseField
  dsimp only
  rw [trimUnits_pad hb ha, htrim, hparse, if_pos (by rw [htext]; rfl)]
  dsimp only
  rw [ofElements_strings, mapString_strings]

theorem wireForm_decodes (hne : l ≠ []) (hl : ∀ s ∈ l, isUuid s = true) {v : JsValue}
    (h : WireForm l v) : parseStringArray numberText v = .ok (.array (l.map .string)) := by
  have hfield {s : Units} (hs : s ≠ []) (hr : parseField numberText s = .array (l.map .string)) :
      parseStringArray numberText (.string s) = .ok (.array (l.map .string)) := by
    rw [parseStringArray, if_neg hs, hr]
  cases h with
  | list =>
    rw [parseStringArray, mapString_strings]
    rfl
  | json hb ha =>
    refine hfield ?_ (parseField_json l hb ha)
    rw [stringify]
    simp
  | @csv entries h =>
    refine hfield ?_ (parseField_csv h hne hl)
    -- an empty text would decode to an empty list
    intro hnil
    have hdecode := @parseField_csv numberText _ _ h hne hl
    rw [hnil] at hdecode
    have hempty : parseField numberText [] = .array [] := rfl
    rw [hempty] at hdecode
    simp only [JsValue.array.injEq] at hdecode
    exact hne (List.map_eq_nil_iff.mp hdecode.symm)

/-- A text that stays a text is trimmed, and decoded again it stays itself. -/
theorem parseField_idem {t : Units} (h : parseField numberText s = .string t) :
    t ≠ [] ∧ parseField numberText t = .string t := by
  unfold parseField at h
  dsimp only at h
  by_cases hb : (trimUnits s).head? = some 0x5b
  · rw [if_pos hb] at h
    have ht : t = trimUnits s := by
      split at h
      · split at h
        · exact absurd h (by simp)
        · exact (JsValue.string.inj h).symm
      · exact (JsValue.string.inj h).symm
    refine ⟨?_, ?_⟩
    · intro hnil
      rw [ht] at hnil
      rw [hnil] at hb
      exact absurd hb (by simp)
    · rw [ht] at h ⊢
      unfold parseField
      dsimp only
      rw [trimUnits_idem, if_pos hb]
      exact h
  · rw [if_neg hb] at h
    exact absurd h (by simp)

/-- The list that a text is decoded to consists of strings and holes. -/
theorem parseField_array {ts : List JsValue} (h : parseField numberText s = .array ts) :
    mapString ts = .ok ts := by
  unfold parseField at h
  dsimp only at h
  split at h
  · split at h
    · split at h
      · next htexts =>
        rw [← JsValue.array.inj h]
        exact mapString_idem htexts
      · exact absurd h (by simp)
    · exact absurd h (by simp)
  · rw [← JsValue.array.inj h]
    exact mapString_strings _

/-- A text is decoded to a list or stays a text. -/
theorem parseField_cases (numberText : Number → Units) (s : Units) :
    (∃ ts, parseField numberText s = .array ts) ∨ ∃ t, parseField numberText s = .string t := by
  unfold parseField
  dsimp only
  split
  · split
    · split
      · exact Or.inl ⟨_, rfl⟩
      · exact Or.inr ⟨_, rfl⟩
    · exact Or.inr ⟨_, rfl⟩
  · exact Or.inl ⟨_, rfl⟩

theorem parseStringArray_idem {v r : JsValue} (h : parseStringArray numberText v = .ok r) :
    parseStringArray numberText r = .ok r := by
  have harray {ts : List JsValue} (hts : mapString ts = .ok ts) :
      parseStringArray numberText (.array ts) = .ok (.array ts) := by
    rw [parseStringArray, hts]
    rfl
  cases v with
  | array elements =>
    rw [parseStringArray] at h
    obtain ⟨ts, hts, hr⟩ := bind_eq_ok h
    rw [← Except.ok.inj hr]
    exact harray (mapString_idem hts)
  | string s =>
    rw [parseStringArray] at h
    split at h
    · rw [← Except.ok.inj h]
      rfl
    · rw [← Except.ok.inj h]
      rcases parseField_cases numberText s with ⟨ts, hf⟩ | ⟨t, hf⟩
      · rw [hf]
        exact harray (parseField_array hf)
      · obtain ⟨hne, hidem⟩ := parseField_idem hf
        rw [hf, parseStringArray, if_neg hne, hidem]
  | _ =>
    rw [← Except.ok.inj h]
    rfl

/-- Every wire form of a list of uuids is decoded to the list, and what is decoded stays as it is. -/
theorem shared_with_decodes_alike (numberText : Number → Units) :
    (∀ l : List Units, l ≠ [] → (∀ s ∈ l, isUuid s = true) → ∀ v, WireForm l v →
      parseStringArray numberText v = .ok (.array (l.map .string))) ∧
    ∀ v r, parseStringArray numberText v = .ok r → parseStringArray numberText r = .ok r :=
  ⟨fun _ hne hl _ h => wireForm_decodes hne hl h, fun _ _ h => parseStringArray_idem h⟩

end Decoding

/-- Two recipients of a message. -/
def recipient : Units := units "11111111-1111-4111-8111-111111111111"

def secondRecipient : Units := units "22222222-2222-4222-8222-222222222222"

/-- The recipients as a CSV text with an empty entry and a space, as a JSON text with a line end, and as
the list that both are decoded to. -/
theorem shared_with_decodes_alike_recipients :
    parseStringArray Number.text (.string ([0x2c].intercalate
        [recipient, [], [0x20] ++ secondRecipient])) =
      .ok (.array [.string recipient, .string secondRecipient]) ∧
    parseStringArray Number.text (.string (stringify (.array
        [.string recipient, .string secondRecipient]) ++ [0x0a])) =
      .ok (.array [.string recipient, .string secondRecipient]) ∧
    parseStringArray Number.text (.array [.string recipient, .string secondRecipient]) =
      .ok (.array [.string recipient, .string secondRecipient]) := by
  have hdecodes := shared_with_decodes_alike Number.text
  have hentries : CsvEntries [recipient, secondRecipient]
      [[] ++ recipient ++ [], [], [0x20] ++ secondRecipient ++ []] :=
    .entry (by simp) (by simp) (.empty (by simp)
      (.entry (List.forall_mem_singleton.mpr (by decide)) (by simp) .nil))
  have huuid : ∀ s ∈ [recipient, secondRecipient], isUuid s = true := by decide +kernel
  have hall := hdecodes.1 [recipient, secondRecipient] (List.cons_ne_nil _ _) huuid
  have hcsv := hall _ (.csv hentries)
  have hjson := hall _ (@WireForm.json _ [] [0x0a] (by simp)
    (List.forall_mem_singleton.mpr (by decide)))
  simp only [List.nil_append, List.append_nil] at hcsv hjson
  exact ⟨hcsv, hjson, hdecodes.2 _ _ hcsv⟩

end WhisprMedia
