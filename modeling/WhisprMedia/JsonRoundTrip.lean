import WhisprMedia.JsonText

/-! What `stringify` writes is parsed back: for strings, for numbers, and by recursion over a value
for arrays and objects, with white space around the whole text. -/
namespace JsonText

/-! Spans -/

section Spans
variable {α : Type} {p : α → Bool} {l rest : List α}

/-- The next element, if there is one, is none that `p` takes. -/
def Stops (p : α → Bool) (rest : List α) : Prop := ∀ c ∈ rest.head?, p c = false

theorem stops_cons {c : α} (h : p c = false) : Stops p (c :: rest) := by
  intro d hd
  rw [← Option.some.inj hd]
  exact h

theorem takeWhile_append (hl : ∀ c ∈ l, p c = true) (hr : Stops p rest) :
    (l ++ rest).takeWhile p = l := by
  induction l with
  | nil =>
    cases rest with
    | nil => rfl
    | cons c rest => exact List.takeWhile_cons_of_neg (by simp [hr c rfl])
  | cons c l ih =>
    rw [List.cons_append, List.takeWhile_cons_of_pos (hl c List.mem_cons_self),
      ih fun d hd => hl d (List.mem_cons_of_mem c hd)]

theorem dropWhile_append (hl : ∀ c ∈ l, p c = true) (hr : Stops p rest) :
    (l ++ rest).dropWhile p = rest := by
  induction l with
  | nil =>
    cases rest with
    | nil => rfl
    | cons c rest => exact List.dropWhile_cons_of_neg (by simp [hr c rfl])
  | cons c l ih =>
    rw [List.cons_append, List.dropWhile_cons_of_pos (hl c List.mem_cons_self)]
    exact ih fun d hd => hl d (List.mem_cons_of_mem c hd)

/-- A list is what `p` takes, and then nothing or an element that `p` refuses. -/
theorem span_cases (p : α → Bool) (l : List α) : (l.dropWhile p = [] ∧ l = l.takeWhile p) ∨
    ∃ c rest, l.dropWhile p = c :: rest ∧ p c = false ∧ l = l.takeWhile p ++ c :: rest := by
  have hsplit := List.takeWhile_append_dropWhile (p := p) (l := l)
  cases hd : l.dropWhile p with
  | nil =>
    rw [hd, List.append_nil] at hsplit
    exact Or.inl ⟨rfl, hsplit.symm⟩
  | cons c rest =>
    have hc := List.head?_dropWhile_not p l
    rw [hd] at hc hsplit
    exact Or.inr ⟨c, rest, rfl, hc, hsplit.symm⟩

end Spans

/-! White space -/

theorem skipSpace_append {pad rest : Units} (hp : ∀ c ∈ pad, isSpace c = true) :
    skipSpace (pad ++ rest) = skipSpace rest := by
  unfold skipSpace
  induction pad with
  | nil => rfl
  | cons c pad ih =>
    rw [List.cons_append, List.dropWhile_cons_of_pos (hp c List.mem_cons_self)]
    exact ih fun d hd => hp d (List.mem_cons_of_mem c hd)

theorem skipSpace_cons {c : UInt16} {rest : Units} (hc : isSpace c = false) :
    skipSpace (c :: rest) = c :: rest := List.dropWhile_cons_of_neg (by simp [hc])

theorem after_cons {c d : UInt16} {rest : Units} (hd : isSpace d = false) :
    after c (d :: rest) = if d = c then some rest else none := by
  unfold after
  rw [skipSpace_cons hd]

/-! Strings -/

theorem hexValue_hexUnit : ∀ d < 16, hexValue (hexUnit d) = some d := by decide +kernel

theorem stringBody_end (rest : Units) : stringBody (0x22 :: rest) = some ([], rest) := by
  rw [stringBody.eq_def]
  rfl

theorem stringBody_plain {c : UInt16} {rest : Units} (hq : c ≠ 0x22) (hb : c ≠ 0x5c)
    (hs : ¬ c < 0x20) :
    stringBody (c :: rest) = (stringBody rest).map fun p => (c :: p.1, p.2) := by
  rw [stringBody.eq_def]
  dsimp only
  rw [if_neg hq, if_neg hb, if_neg hs]
  cases stringBody rest <;> rfl

theorem stringBody_escape {e x : UInt16} {rest : Units} (he : e ≠ 0x75)
    (hx : unescape e = some x) :
    stringBody (0x5c :: e :: rest) = (stringBody rest).map fun p => (x :: p.1, p.2) := by
  rw [stringBody.eq_def]
  dsimp only
  rw [if_neg (by decide), if_pos rfl, if_neg he, hx]
  cases stringBody rest <;> rfl

theorem stringBody_hex (c : UInt16) (rest : Units) :
    stringBody (0x5c :: 0x75 :: (hexUnits c ++ rest)) =
      (stringBody rest).map fun p => (c :: p.1, p.2) := by
  have hc := c.toNat_lt
  -- the four digits make up the unit
  have hvalue : UInt16.ofNat (c.toNat / 4096 * 4096 + c.toNat / 256 % 16 * 256 +
      c.toNat / 16 % 16 * 16 + c.toNat % 16) = c := by
    have hsum : c.toNat / 4096 * 4096 + c.toNat / 256 % 16 * 256 + c.toNat / 16 % 16 * 16 +
        c.toNat % 16 = c.toNat := by omega
    rw [hsum]
    exact UInt16.ofNat_toNat
  rw [stringBody.eq_def]
  dsimp only [hexUnits, List.cons_append, List.nil_append]
  rw [if_neg (by decide), if_pos rfl, if_pos rfl, hexValue_hexUnit _ (by omega),
    hexValue_hexUnit _ (by omega), hexValue_hexUnit _ (by omega), hexValue_hexUnit _ (by omega)]
  dsimp only [Option.bind_eq_bind, Option.bind_some]
  rw [hvalue]
  cases stringBody rest <;> rfl

/-- A unit as it is quoted is read back. -/
theorem stringBody_quoteUnit (c : UInt16) (rest : Units) :
    stringBody (quoteUnit c ++ rest) = (stringBody rest).map fun p => (c :: p.1, p.2) := by
  unfold quoteUnit
  split
  · next h => rw [h]; exact stringBody_escape (by decide) rfl
  split
  · next h => rw [h]; exact stringBody_escape (by decide) rfl
  split
  · next h => rw [h]; exact stringBody_escape (by decide) rfl
  split
  · next h => rw [h]; exact stringBody_escape (by decide) rfl
  split
  · next h => rw [h]; exact stringBody_escape (by decide) rfl
  split
  · next h => rw [h]; exact stringBody_escape (by decide) rfl
  split
  · next h => rw [h]; exact stringBody_escape (by decide) rfl
  split
  · exact stringBody_hex c rest
  · next hq hb _ _ _ _ _ hctl =>
    refine stringBody_plain hq hb fun hlt => hctl ?_
    simp [hlt]

/-- A surrogate is no quote, no backslash and no control character. -/
theorem surrogate_plain {c : UInt16} (h : isLead c = true ∨ isTrail c = true) :
    c ≠ 0x22 ∧ c ≠ 0x5c ∧ ¬ c < 0x20 := by
  simp only [isLead, isTrail, Bool.and_eq_true, decide_eq_true_eq, UInt16.le_iff_toNat_le] at h
  have hn : 0xd800 ≤ c.toNat := by
    rcases h with h | h
    · exact h.1
    · exact Nat.le_trans (by decide) h.1
  refine ⟨?_, ?_, ?_⟩
  · rintro rfl
    exact absurd hn (by decide)
  · rintro rfl
    exact absurd hn (by decide)
  · intro hlt
    have hlt' : c.toNat < 0x20 := UInt16.lt_iff_toNat_lt.mp hlt
    omega

theorem stringBody_quoteUnits (s rest : Units) :
    stringBody (quoteUnits s ++ 0x22 :: rest) = some (s, rest) := by
  induction s using quoteUnits.induct with
  | case1 => exact stringBody_end rest
  | case2 c =>
    rw [quoteUnits, stringBody_quoteUnit, stringBody_end]
    rfl
  | case3 c d cs hpair ih =>
    rw [quoteUnits, if_pos hpair]
    obtain ⟨hc, hd⟩ := Bool.and_eq_true_iff.mp hpair
    obtain ⟨hc₁, hc₂, hc₃⟩ := surrogate_plain (Or.inl hc)
    obtain ⟨hd₁, hd₂, hd₃⟩ := surrogate_plain (Or.inr hd)
    rw [List.cons_append, List.cons_append, stringBody_plain hc₁ hc₂ hc₃,
      stringBody_plain hd₁ hd₂ hd₃, ih]
    rfl
  | case4 c d cs hpair ih =>
    rw [quoteUnits, if_neg hpair, List.append_assoc, stringBody_quoteUnit, ih]
    rfl

/-! Numbers -/

theorem isNumberUnit_of_digit {c : UInt16} (h : isDigit c = true) : isNumberUnit c = true := by
  simp [isNumberUnit, h]

theorem digits_units {t : Units} (h : isDigits t = true) : ∀ c ∈ t, isNumberUnit c = true := by
  intro c hc
  have hall := (Bool.and_eq_true_iff.mp h).2
  exact isNumberUnit_of_digit (List.all_eq_true.mp hall c hc)

theorem mem_of_dropMinus {t : Units} {c : UInt16} (h : c ∈ t) : c = 0x2d ∨ c ∈ dropMinus t := by
  unfold dropMinus
  split
  · next hm =>
    cases t with
    | nil => exact absurd h List.not_mem_nil
    | cons d t =>
      rcases List.mem_cons.mp h with rfl | h
      · exact Or.inl (Option.some.inj hm)
      · exact Or.inr h
  · exact Or.inr h

theorem mem_of_dropSign {t : Units} {c : UInt16} (h : c ∈ t) :
    isNumberUnit c = true ∨ c ∈ dropSign t := by
  unfold dropSign
  split
  · next hm =>
    cases t with
    | nil => exact absurd h List.not_mem_nil
    | cons d t =>
      rcases List.mem_cons.mp h with rfl | h
      · have hc : c = 0x2b ∨ c = 0x2d := by simpa using hm
        rcases hc with rfl | rfl <;> exact Or.inl (by decide)
      · exact Or.inr h
  · exact Or.inr h

theorem dropMinus_eq (t : Units) : dropMinus t = integer t ++ fraction t ++ exponent t := by
  unfold integer fraction exponent
  rw [List.takeWhile_append_dropWhile]
  exact List.takeWhile_append_dropWhile.symm

/-- A fraction is a dot and what is checked to be digits. -/
theorem fraction_cases (t : Units) : fraction t = [] ∨ fraction t = 0x2e :: (fraction t).tail := by
  rcases span_cases (fun c : UInt16 => decide (c ≠ 0x2e)) (mantissa t) with
    ⟨hnil, -⟩ | ⟨c, rest, hd, hc, -⟩
  · exact Or.inl hnil
  · refine Or.inr ?_
    unfold fraction
    rw [hd, List.tail_cons, show c = 0x2e by simpa using hc]

theorem exponent_cases (t : Units) : exponent t = [] ∨
    ∃ e, (e = 0x65 ∨ e = 0x45) ∧ exponent t = e :: (exponent t).tail := by
  rcases span_cases inMantissa (dropMinus t) with ⟨hnil, -⟩ | ⟨c, rest, hd, hc, -⟩
  · exact Or.inl hnil
  · refine Or.inr ⟨c, ?_, ?_⟩
    · by_contra hne
      rw [not_or] at hne
      simp [inMantissa, hne.1, hne.2] at hc
    · unfold exponent
      rw [hd, List.tail_cons]

/-- The parts of a literal. -/
theorem isNumber_parts {t : Units} (h : isNumber t = true) : isDigits (integer t) = true ∧
    (fraction t = [] ∨ fraction t = 0x2e :: (fraction t).tail ∧
      isDigits (fraction t).tail = true) ∧
    (exponent t = [] ∨ ∃ e, (e = 0x65 ∨ e = 0x45) ∧ exponent t = e :: (exponent t).tail ∧
      isDigits (dropSign (exponent t).tail) = true) := by
  simp only [isNumber, Bool.and_eq_true, Bool.or_eq_true, List.isEmpty_iff] at h
  obtain ⟨⟨hint, hfraction⟩, hexponent⟩ := h
  refine ⟨(Bool.and_eq_true_iff.mp hint).1, ?_, ?_⟩
  · rcases hfraction with hnil | hdigits
    · exact Or.inl hnil
    · rcases fraction_cases t with hnil | hdot
      · exact Or.inl hnil
      · exact Or.inr ⟨hdot, hdigits⟩
  · rcases hexponent with hnil | hdigits
    · exact Or.inl hnil
    · rcases exponent_cases t with hnil | ⟨e, he, heq⟩
      · exact Or.inl hnil
      · exact Or.inr ⟨e, he, heq, hdigits⟩

theorem isNumber_units {t : Units} (h : isNumber t = true) : ∀ c ∈ t, isNumberUnit c = true := by
  intro c hc
  obtain ⟨hint, hfraction, hexponent⟩ := isNumber_parts h
  rcases mem_of_dropMinus hc with rfl | hc
  · decide
  rw [dropMinus_eq, List.mem_append, List.mem_append] at hc
  rcases hc with (hc | hc) | hc
  · exact digits_units hint c hc
  · rcases hfraction with hnil | ⟨hdot, hdigits⟩
    · exact absurd (hnil ▸ hc) List.not_mem_nil
    · rw [hdot] at hc
      rcases List.mem_cons.mp hc with rfl | hc
      · decide
      · exact digits_units hdigits c hc
  · rcases hexponent with hnil | ⟨e, he, heq, hdigits⟩
    · exact absurd (hnil ▸ hc) List.not_mem_nil
    · rw [heq] at hc
      rcases List.mem_cons.mp hc with rfl | hc
      · rcases he with rfl | rfl <;> decide
      · rcases mem_of_dropSign hc with hc | hc
        · exact hc
        · exact digits_units hdigits c hc

/-- A literal begins with a digit or a minus. -/
theorem isNumber_head {t : Units} (h : isNumber t = true) :
    ∃ c rest, t = c :: rest ∧ (isDigit c = true ∨ c = 0x2d) := by
  obtain ⟨hdigits, -, -⟩ := isNumber_parts h
  have hbody := dropMinus_eq t
  cases hint : integer t with
  | nil =>
    rw [hint] at hdigits
    exact absurd hdigits (by decide)
  | cons d int =>
    rw [hint] at hdigits hbody
    have hd : isDigit d = true :=
      List.all_eq_true.mp (Bool.and_eq_true_iff.mp hdigits).2 d List.mem_cons_self
    cases t with
    | nil => exact absurd hbody (by simp [dropMinus])
    | cons c rest =>
      refine ⟨c, rest, rfl, ?_⟩
      by_cases hm : c = 0x2d
      · exact Or.inr hm
      · -- without a minus the literal is its body
        rw [dropMinus, if_neg (by simpa using hm)] at hbody
        rw [(List.cons.inj hbody).1]
        exact Or.inl hd

theorem number_append (n : Number) {rest : Units} (hr : Stops isNumberUnit rest) :
    number (n.text ++ rest) = some (.number n, rest) := by
  have hunits := isNumber_units n.valid
  have htake := takeWhile_append hunits hr
  unfold number
  split
  · next h =>
    rw [dropWhile_append hunits hr]
    have hn : (⟨_, h⟩ : Number) = n := by
      obtain ⟨text, valid⟩ := n
      simp only [Number.mk.injEq]
      exact htake
    rw [hn]
  · next h =>
    rw [htake] at h
    exact absurd n.valid h

/-! Values -/

theorem keyword_append (text : Units) (j : Json) (rest : Units) :
    keyword text j (text ++ rest) = some (j, rest) := by
  unfold keyword
  rw [if_pos (by simp), List.drop_left]

/-- The first unit of a value is no white space and closes nothing. -/
theorem stringify_head (j : Json) : ∃ c rest, stringify j = c :: rest ∧ isSpace c = false ∧
    c ≠ 0x5d ∧ c ≠ 0x7d := by
  cases j with
  | null => exact ⟨_, _, rfl, by decide⟩
  | bool b => cases b <;> exact ⟨_, _, rfl, by decide⟩
  | string s => exact ⟨_, _, rfl, by decide⟩
  | array l => exact ⟨_, _, by rw [stringify], by decide⟩
  | object l => exact ⟨_, _, by rw [stringify], by decide⟩
  | number n =>
    obtain ⟨c, rest, ht, hc⟩ := isNumber_head n.valid
    refine ⟨c, rest, by rw [stringify, ht], ?_⟩
    rcases hc with hc | rfl
    · have hle : 0x30 ≤ c.toNat ∧ c.toNat ≤ 0x39 := by
        simpa [isDigit, UInt16.le_iff_toNat_le] using hc
      refine ⟨?_, ?_, ?_⟩
      · simp only [isSpace, Bool.or_eq_false_iff, decide_eq_false_iff_not]
        refine ⟨⟨⟨?_, ?_⟩, ?_⟩, ?_⟩ <;> rintro rfl <;> exact absurd hle (by decide)
      · rintro rfl
        exact absurd hle (by decide)
      · rintro rfl
        exact absurd hle (by decide)
    · decide

theorem value_cons {c : UInt16} {rest : Units} (fuel : ℕ) (hc : isSpace c = false) :
    value (fuel+1) (c :: rest) =
      if c = 0x22 then (stringBody rest).map fun p => (.string p.1, p.2)
      else if c = 0x5b then
        match after 0x5d rest with
        | some rest => some (.array [], rest)
        | none => (elements fuel rest).map fun p => (.array p.1, p.2)
      else if c = 0x7b then
        match after 0x7d rest with
        | some rest => some (.object [], rest)
        | none => (members fuel rest).map fun p => (.object p.1, p.2)
      else if c = 0x6e then keyword (units "null") .null (c :: rest)
      else if c = 0x74 then keyword (units "true") (.bool true) (c :: rest)
      else if c = 0x66 then keyword (units "false") (.bool false) (c :: rest)
      else number (c :: rest) := by
  have hvalue := value.eq_2 (c :: rest) fuel
  rewrite [skipSpace_cons hc] at hvalue
  exact hvalue

theorem value_skipSpace (fuel : ℕ) (s : Units) : value fuel (skipSpace s) = value fuel s := by
  have hidem : skipSpace (skipSpace s) = skipSpace s := by
    rcases span_cases isSpace s with ⟨hnil, -⟩ | ⟨c, rest, hd, hc, -⟩
    · unfold skipSpace
      rw [hnil]
      rfl
    · unfold skipSpace
      rw [hd]
      exact List.dropWhile_cons_of_neg (by simp [hc])
  cases fuel with
  | zero => rw [value, value]
  | succ fuel => rw [value, value, hidem]

theorem quote_append (s rest : Units) : quote s ++ rest = 0x22 :: (quoteUnits s ++ 0x22 :: rest) := by
  simp only [quote, List.cons_append, List.append_assoc, List.nil_append]

/-- A unit that begins a number is none of the others. -/
theorem number_start {c d : UInt16} (hc : isDigit c = true ∨ c = 0x2d) (hd : isDigit d = false)
    (hd' : d ≠ 0x2d) : c ≠ d := by
  rintro rfl
  rcases hc with hc | hc
  · rw [hd] at hc
    exact absurd hc (by simp)
  · exact hd' hc

theorem value_number (fuel : ℕ) (n : Number) {rest : Units} (hr : Stops isNumberUnit rest) :
    value (fuel+1) (n.text ++ rest) = some (.number n, rest) := by
  obtain ⟨c, tail, ht, hc⟩ := isNumber_head n.valid
  have hspace : isSpace c = false := by
    simp only [isSpace, Bool.or_eq_false_iff, decide_eq_false_iff_not]
    exact ⟨⟨⟨number_start hc (by decide) (by decide), number_start hc (by decide) (by decide)⟩,
      number_start hc (by decide) (by decide)⟩, number_start hc (by decide) (by decide)⟩
  have hnumber := number_append n hr
  rw [ht, List.cons_append] at hnumber ⊢
  rw [value_cons fuel hspace, if_neg (number_start hc (by decide) (by decide)),
    if_neg (number_start hc (by decide) (by decide)),
    if_neg (number_start hc (by decide) (by decide)),
    if_neg (number_start hc (by decide) (by decide)),
    if_neg (number_start hc (by decide) (by decide)),
    if_neg (number_start hc (by decide) (by decide)), hnumber]

theorem elementsText_append (x : Json) (xs : List Json) (rest : Units) :
    elementsText (x :: xs) ++ rest = stringify x ++ match xs with
      | [] => 0x5d :: rest
      | y :: ys => 0x2c :: (elementsText (y :: ys) ++ rest) := by
  cases xs with
  | nil => rw [elementsText, List.append_assoc, List.singleton_append]
  | cons y ys => rw [elementsText, List.append_assoc, List.cons_append]

theorem membersText_append (key : Units) (x : Json) (ms : List (Units × Json)) (rest : Units) :
    membersText ((key, x) :: ms) ++ rest =
      0x22 :: (quoteUnits key ++ 0x22 :: 0x3a :: (stringify x ++ match ms with
        | [] => 0x7d :: rest
        | m :: ms => 0x2c :: (membersText (m :: ms) ++ rest))) := by
  cases ms with
  | nil =>
    rw [membersText, List.append_assoc, quote_append, List.cons_append, List.append_assoc,
      List.singleton_append]
  | cons m ms =>
    rw [membersText, List.append_assoc, quote_append, List.cons_append, List.append_assoc,
      List.cons_append]

/-- Behind the opening bracket of an array with elements there is no closing one. -/
theorem after_elementsText (x : Json) (xs : List Json) (rest : Units) :
    after 0x5d (elementsText (x :: xs) ++ rest) = none := by
  obtain ⟨c, tail, hx, hspace, hc, -⟩ := stringify_head x
  rw [elementsText_append, hx, List.cons_append, after_cons hspace, if_neg hc]

mutual

/-- With fuel for its length the text of a value is read back, whatever stands behind it that could
not continue a number. -/
theorem value_stringify (j : Json) (fuel : ℕ) (rest : Units)
    (hf : 2 * (stringify j).length ≤ fuel) (hr : Stops isNumberUnit rest) :
    value fuel (stringify j ++ rest) = some (j, rest) := by
  obtain ⟨fuel, rfl⟩ : ∃ n, fuel = n+1 := by
    obtain ⟨c, tail, hj, -⟩ := stringify_head j
    rw [hj, List.length_cons] at hf
    exact ⟨fuel-1, by omega⟩
  match j with
  | .null =>
    have hkey := keyword_append (units "null") .null rest
    rw [stringify]
    exact (value_cons fuel (by decide)).trans hkey
  | .bool true =>
    have hkey := keyword_append (units "true") (.bool true) rest
    rw [stringify]
    exact (value_cons fuel (by decide)).trans hkey
  | .bool false =>
    have hkey := keyword_append (units "false") (.bool false) rest
    rw [stringify]
    exact (value_cons fuel (by decide)).trans hkey
  | .number n =>
    rw [stringify]
    exact value_number fuel n hr
  | .string s =>
    rw [stringify, quote_append, value_cons fuel (by decide), if_pos rfl, stringBody_quoteUnits]
    rfl
  | .array [] =>
    rw [stringify, List.cons_append, value_cons fuel (by decide), if_neg (by decide), if_pos rfl,
      elementsText, List.singleton_append, after_cons (by decide), if_pos rfl]
  | .array (x :: xs) =>
    rw [stringify, List.length_cons] at hf
    have helements := elements_text x xs fuel rest (by omega)
    rw [stringify, List.cons_append, value_cons fuel (by decide), if_neg (by decide), if_pos rfl,
      after_elementsText, helements]
    rfl
  | .object [] =>
    rw [stringify, List.cons_append, value_cons fuel (by decide), if_neg (by decide),
      if_neg (by decide), if_pos rfl, membersText, List.singleton_append, after_cons (by decide),
      if_pos rfl]
  | .object ((key, x) :: ms) =>
    rw [stringify, List.length_cons] at hf
    have hmembers := members_text key x ms fuel rest (by omega)
    rw [stringify, List.cons_append, value_cons fuel (by decide), if_neg (by decide),
      if_neg (by decide), if_pos rfl, hmembers, membersText_append, after_cons (by decide),
      if_neg (by decide)]
    rfl
termination_by fuel

theorem elements_text (x : Json) (xs : List Json) (fuel : ℕ) (rest : Units)
    (hf : 2 * (elementsText (x :: xs)).length ≤ fuel+1) :
    elements fuel (elementsText (x :: xs) ++ rest) = some (x :: xs, rest) := by
  have hlen := congrArg List.length (elementsText_append x xs [])
  rw [List.append_nil, List.length_append] at hlen
  match xs with
  | [] =>
    rw [List.length_singleton] at hlen
    obtain ⟨fuel, rfl⟩ : ∃ n, fuel = n+1 := ⟨fuel-1, by omega⟩
    have hvalue := value_stringify x fuel (0x5d :: rest) (by omega) (stops_cons (by decide))
    rw [elementsText_append, elements, hvalue, Option.bind_some]
    dsimp only
    rw [after_cons (by decide), if_pos rfl]
  | y :: ys =>
    rw [List.length_cons, List.length_append] at hlen
    obtain ⟨fuel, rfl⟩ : ∃ n, fuel = n+1 := ⟨fuel-1, by omega⟩
    have hvalue := value_stringify x fuel (0x2c :: (elementsText (y :: ys) ++ rest)) (by omega)
      (stops_cons (by decide))
    have hrest := elements_text y ys fuel rest (by omega)
    rw [elementsText_append, elements, hvalue, Option.bind_some]
    dsimp only
    rw [after_cons (by decide), if_neg (by decide), after_cons (by decide), if_pos rfl]
    dsimp only [Option.bind_some]
    rw [hrest]
    rfl
termination_by fuel

theorem members_text (key : Units) (x : Json) (ms : List (Units × Json)) (fuel : ℕ) (rest : Units)
    (hf : 2 * (membersText ((key, x) :: ms)).length ≤ fuel+1) :
    members fuel (membersText ((key, x) :: ms) ++ rest) = some ((key, x) :: ms, rest) := by
  have hlen := congrArg List.length (membersText_append key x ms [])
  rw [List.append_nil, List.length_cons, List.length_append, List.length_cons, List.length_cons,
    List.length_append] at hlen
  match ms with
  | [] =>
    rw [List.length_singleton] at hlen
    obtain ⟨fuel, rfl⟩ : ∃ n, fuel = n+1 := ⟨fuel-1, by omega⟩
    have hvalue := value_stringify x fuel (0x7d :: rest) (by omega) (stops_cons (by decide))
    rw [membersText_append, members, after_cons (by decide), if_pos rfl, Option.bind_some,
      stringBody_quoteUnits, Option.bind_some]
    dsimp only
    rw [after_cons (by decide), if_pos rfl, Option.bind_some, hvalue, Option.bind_some]
    dsimp only
    rw [after_cons (by decide), if_pos rfl]
  | (key', y) :: ms =>
    rw [List.length_cons, List.length_append] at hlen
    obtain ⟨fuel, rfl⟩ : ∃ n, fuel = n+1 := ⟨fuel-1, by omega⟩
    have hvalue := value_stringify x fuel (0x2c :: (membersText ((key', y) :: ms) ++ rest))
      (by omega) (stops_cons (by decide))
    have hrest := members_text key' y ms fuel rest (by omega)
    rw [membersText_append, members, after_cons (by decide), if_pos rfl, Option.bind_some,
      stringBody_quoteUnits, Option.bind_some]
    dsimp only
    rw [after_cons (by decide), if_pos rfl, Option.bind_some, hvalue, Option.bind_some]
    dsimp only
    rw [after_cons (by decide), if_neg (by decide), after_cons (by decide), if_pos rfl]
    dsimp only [Option.bind_some]
    rw [hrest]
    rfl
termination_by fuel

end

/-! Fuel -/

theorem skipSpace_length (s : Units) : (skipSpace s).length ≤ s.length :=
  (List.dropWhile_sublist isSpace).length_le

theorem after_length {c : UInt16} {s rest : Units} (h : after c s = some rest) :
    rest.length < s.length := by
  have hle := skipSpace_length s
  unfold after at h
  split at h
  · exact absurd h (by simp)
  · next d tail hs =>
    rw [hs, List.length_cons] at hle
    split at h
    · rw [← Option.some.inj h]
      omega
    · exact absurd h (by simp)

theorem stringBody_length (s : Units) {p : Units × Units} (h : stringBody s = some p) :
    p.2.length < s.length := by
  induction s using stringBody.induct generalizing p with
  | case1 => exact absurd h (by rw [stringBody.eq_def]; simp)
  | case2 rest =>
    rw [stringBody_end] at h
    rw [← Option.some.inj h, List.length_cons]
    exact Nat.lt_succ_self _
  | case3 hne => exact absurd h (by rw [stringBody.eq_def]; simp)
  | case4 h₃ h₂ h₁ h₀ rest hne ih =>
    rw [stringBody.eq_def] at h
    dsimp only at h
    rw [if_neg hne, if_pos rfl, if_pos rfl] at h
    simp only [Option.bind_eq_bind, Option.bind_eq_some_iff] at h
    obtain ⟨d₃, -, d₂, -, d₁, -, d₀, -, q, hq, hp⟩ := h
    have hlt := ih hq
    rw [← Option.some.inj hp]
    simp only [List.length_cons]
    omega
  | case5 rest hshort hne =>
    rw [stringBody.eq_def] at h
    dsimp only at h
    rw [if_neg hne, if_pos rfl, if_pos rfl] at h
    split at h
    · next h₃ h₂ h₁ h₀ rest => exact absurd rfl (hshort h₃ h₂ h₁ h₀ rest)
    · exact absurd h (by simp)
  | case6 e rest he hne ih =>
    rw [stringBody.eq_def] at h
    dsimp only at h
    rw [if_neg hne, if_pos rfl, if_neg he] at h
    simp only [Option.bind_eq_bind, Option.bind_eq_some_iff] at h
    obtain ⟨x, -, q, hq, hp⟩ := h
    have hlt := ih hq
    rw [← Option.some.inj hp]
    simp only [List.length_cons]
    omega
  | case7 c rest hq hb hc =>
    rw [stringBody.eq_def] at h
    dsimp only at h
    rw [if_neg hq, if_neg hb, if_pos hc] at h
    exact absurd h (by simp)
  | case8 c rest hq hb hc ih =>
    rw [stringBody_plain hq hb hc, Option.map_eq_some_iff] at h
    obtain ⟨q, hq, hp⟩ := h
    have hlt := ih hq
    rw [← hp, List.length_cons]
    exact Nat.lt_succ_of_lt hlt

theorem number_length {c : UInt16} {rest : Units} {p : Json × Units}
    (h : number (c :: rest) = some p) : p.2.length < (c :: rest).length := by
  unfold number at h
  split at h
  · next hvalid =>
    obtain ⟨d, tail, htake, -⟩ := isNumber_head hvalid
    have hlen := congrArg List.length
      (List.takeWhile_append_dropWhile (p := isNumberUnit) (l := c :: rest))
    rw [List.length_append, htake, List.length_cons] at hlen
    rw [← Option.some.inj h]
    dsimp only
    omega
  · exact absurd h (by simp)

theorem keyword_length {text : Units} {j : Json} {s : Units} {p : Json × Units}
    (ht : 0 < text.length) (h : keyword text j s = some p) : p.2.length < s.length := by
  unfold keyword at h
  split at h
  · next hpre =>
    have hle := (List.isPrefixOf_iff_prefix.mp hpre).length_le
    rw [← Option.some.inj h, List.length_drop]
    omega
  · exact absurd h (by simp)

/-- A parser of `n` units needs no more than twice this fuel, and it takes something. -/
structure EnoughFuel {α : Type} (parser : ℕ → Units → Option (α × Units)) (extra : ℕ) (s : Units)
    (p : α × Units) : Prop where
  length : p.2.length < s.length
  fuel : ∀ m, 2 * s.length + extra ≤ m → parser m s = some p

/-- What is parsed with some fuel is parsed with all fuel from twice the length on. -/
theorem enoughFuel (n : ℕ) :
    (∀ s p, value n s = some p → EnoughFuel value 0 s p) ∧
    (∀ s p, elements n s = some p → EnoughFuel elements 1 s p) ∧
    ∀ s p, members n s = some p → EnoughFuel members 1 s p := by
  induction n with
  | zero =>
    refine ⟨fun s p h => ?_, fun s p h => ?_, fun s p h => ?_⟩
    · exact absurd h (by rw [value]; simp)
    · exact absurd h (by rw [elements]; simp)
    · exact absurd h (by rw [members]; simp)
  | succ n ih =>
    obtain ⟨ihv, ihe, ihm⟩ := ih
    refine ⟨fun s p h => ?_, fun s p h => ?_, fun s p h => ?_⟩
    · -- a value: all kinds but arrays and objects are read without fuel
      have hle := skipSpace_length s
      rw [value] at h
      cases hs : skipSpace s with
      | nil =>
        rw [hs] at h
        exact absurd h (by simp)
      | cons c rest =>
        rw [hs, List.length_cons] at hle
        rw [hs] at h
        dsimp only at h
        have hpos : 0 < s.length := by omega
        -- what is left to show for a kind, given what its part of the text leaves
        suffices hkind : p.2.length < (c :: rest).length ∧
            ∀ m, 2 * s.length ≤ m+1 → value (m+1) s = some p by
          refine ⟨?_, fun m hm => ?_⟩
          · have := hkind.1
            rw [List.length_cons] at this
            omega
          · obtain ⟨k, rfl⟩ : ∃ k, m = k+1 := ⟨m-1, by omega⟩
            exact hkind.2 k hm
        simp only [value, hs]
        split at h
        · next hc =>
          obtain ⟨q, hq, rfl⟩ := Option.map_eq_some_iff.mp h
          have hlt := stringBody_length rest hq
          refine ⟨Nat.lt_succ_of_lt hlt, fun m _ => ?_⟩
          rw [if_pos hc, hq]
          rfl
        split at h
        · next hq hc =>
          split at h
          · next rest' ha =>
            obtain rfl := Option.some.inj h
            have hlt := after_length ha
            refine ⟨Nat.lt_succ_of_lt hlt, fun m _ => ?_⟩
            rw [if_neg hq, if_pos hc]
          · next ha =>
            obtain ⟨q, hq', rfl⟩ := Option.map_eq_some_iff.mp h
            have henough := ihe rest q hq'
            refine ⟨Nat.lt_succ_of_lt henough.length, fun m hm => ?_⟩
            rw [if_neg hq, if_pos hc, henough.fuel m (by omega)]
            rfl
        split at h
        · next hq hb hc =>
          split at h
          · next rest' ha =>
            obtain rfl := Option.some.inj h
            have hlt := after_length ha
            refine ⟨Nat.lt_succ_of_lt hlt, fun m _ => ?_⟩
            rw [if_neg hq, if_neg hb, if_pos hc]
          · next ha =>
            obtain ⟨q, hq', rfl⟩ := Option.map_eq_some_iff.mp h
            have henough := ihm rest q hq'
            refine ⟨Nat.lt_succ_of_lt henough.length, fun m hm => ?_⟩
            rw [if_neg hq, if_neg hb, if_pos hc, henough.fuel m (by omega)]
            rfl
        · next hq hb ho =>
          refine ⟨?_, fun m _ => ?_⟩
          · split at h
            · exact keyword_length (by decide) h
            split at h
            · exact keyword_length (by decide) h
            split at h
            · exact keyword_length (by decide) h
            · exact number_length h
          · rw [if_neg hq, if_neg hb, if_neg ho]
            exact h
    · rw [elements] at h
      obtain ⟨x, hx, h⟩ := Option.bind_eq_some_iff.mp h
      obtain ⟨hxlen, hxfuel⟩ := ihv _ _ hx
      split at h
      · next rest ha =>
        obtain rfl := Option.some.inj h
        have hlt := after_length ha
        refine ⟨Nat.lt_trans hlt hxlen, fun m hm => ?_⟩
        obtain ⟨k, rfl⟩ : ∃ k, m = k+1 := ⟨m-1, by omega⟩
        rw [elements, hxfuel k (by omega), Option.bind_some, ha]
      · next ha =>
        obtain ⟨rest, hcomma, h⟩ := Option.bind_eq_some_iff.mp h
        obtain ⟨q, hq, rfl⟩ := Option.map_eq_some_iff.mp h
        obtain ⟨hqlen, hqfuel⟩ := ihe _ _ hq
        have hlt := after_length hcomma
        refine ⟨Nat.lt_trans hqlen (Nat.lt_trans hlt hxlen), fun m hm => ?_⟩
        obtain ⟨k, rfl⟩ : ∃ k, m = k+1 := ⟨m-1, by omega⟩
        rw [elements, hxfuel k (by omega), Option.bind_some, ha]
        dsimp only
        rw [hcomma, Option.bind_some, hqfuel k (by omega)]
        rfl
    · rw [members] at h
      obtain ⟨r₁, hquote, h⟩ := Option.bind_eq_some_iff.mp h
      obtain ⟨key, hkey, h⟩ := Option.bind_eq_some_iff.mp h
      obtain ⟨r₂, hcolon, h⟩ := Option.bind_eq_some_iff.mp h
      obtain ⟨x, hx, h⟩ := Option.bind_eq_some_iff.mp h
      obtain ⟨hxlen, hxfuel⟩ := ihv _ _ hx
      have h₁ := after_length hquote
      have h₂ := stringBody_length r₁ hkey
      have h₃ := after_length hcolon
      split at h
      · next rest ha =>
        obtain rfl := Option.some.inj h
        have h₄ := after_length ha
        refine ⟨by dsimp only; omega, fun m hm => ?_⟩
        obtain ⟨k, rfl⟩ : ∃ k, m = k+1 := ⟨m-1, by omega⟩
        rw [members, hquote, Option.bind_some, hkey, Option.bind_some, hcolon, Option.bind_some,
          hxfuel k (by omega), Option.bind_some, ha]
      · next ha =>
        obtain ⟨rest, hcomma, h⟩ := Option.bind_eq_some_iff.mp h
        obtain ⟨q, hq, rfl⟩ := Option.map_eq_some_iff.mp h
        obtain ⟨hqlen, hqfuel⟩ := ihm _ _ hq
        have h₄ := after_length hcomma
        refine ⟨by dsimp only; omega, fun m hm => ?_⟩
        obtain ⟨k, rfl⟩ : ∃ k, m = k+1 := ⟨m-1, by omega⟩
        rw [members, hquote, Option.bind_some, hkey, Option.bind_some, hcolon, Option.bind_some,
          hxfuel k (by omega), Option.bind_some, ha]
        dsimp only
        rw [hcomma, Option.bind_some, hqfuel k (by omega)]
        rfl

/-- The fuel of `parse` never decides: what some fuel parses completely, it parses. -/
theorem parse_of_value {fuel : ℕ} {s rest : Units} {j : Json} (h : value fuel s = some (j, rest))
    (hrest : skipSpace rest = []) : parse s = some j := by
  have hvalue := ((enoughFuel fuel).1 s _ h).fuel (2 * s.length) (Nat.le_refl _)
  unfold parse
  rw [hvalue]
  dsimp only
  rw [hrest]
  rfl

/-- What is stringified is parsed back, also with white space around it. -/
theorem parse_stringify (j : Json) {before behind : Units} (hb : ∀ c ∈ before, isSpace c = true)
    (ha : ∀ c ∈ behind, isSpace c = true) : parse (before ++ stringify j ++ behind) = some j := by
  have hbehind : skipSpace behind = [] := by
    have h := @skipSpace_append behind [] ha
    rwa [List.append_nil] at h
  have hstop : Stops isNumberUnit behind := by
    intro c hc
    have hspace := ha c (List.mem_of_mem_head? hc)
    simp only [isSpace, Bool.or_eq_true, decide_eq_true_eq] at hspace
    rcases hspace with ((rfl | rfl) | rfl) | rfl <;> decide
  have hvalue : value (2 * (stringify j).length) (before ++ stringify j ++ behind) =
      some (j, behind) := by
    rw [← value_skipSpace, List.append_assoc, skipSpace_append hb, value_skipSpace]
    exact value_stringify j _ behind (Nat.le_refl _) hstop
  exact parse_of_value hvalue hbehind

end JsonText
