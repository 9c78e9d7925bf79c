import WhisprMedia.JsonText
import Mathlib.Data.List.TakeWhile
import Mathlib.Tactic.IntervalCases

/-! Characters and integers in JSON texts: the units of a text determine it, and an integer is
written as a number. -/
namespace JsonText

/-! Characters -/

theorem utf16_bmp {c : Char} (h : c.toNat < 0x10000) : utf16 c = [UInt16.ofNat c.toNat] := if_pos h

theorem decodeUnits_plain {c : UInt16} (hc : isLead c = false) (hc' : isTrail c = false)
    (rest : Units) : decodeUnits (c :: rest) = (decodeUnits rest).map (Char.ofNat c.toNat :: ·) := by
  cases rest with
  | nil => simp [decodeUnits, hc, hc']
  | cons d rest => rw [decodeUnits, hc, hc']; rfl

/-- A character is decoded from its units. -/
theorem decodeUnits_utf16 (c : Char) (rest : Units) :
    decodeUnits (utf16 c ++ rest) = (decodeUnits rest).map (c :: ·) := by
  have hvalid : c.toNat < 0xd800 ∨ 0xdfff < c.toNat ∧ c.toNat < 0x110000 := c.valid
  by_cases hb : c.toNat < 0x10000
  · have hnat : (UInt16.ofNat c.toNat).toNat = c.toNat := UInt16.toNat_ofNat_of_lt hb
    have hlead : isLead (UInt16.ofNat c.toNat) = false := by
      simp only [isLead, Bool.and_eq_false_iff, decide_eq_false_iff_not, UInt16.le_iff_toNat_le, hnat]
      have h1 : (0xd800 : UInt16).toNat = 0xd800 := rfl
      have h2 : (0xdbff : UInt16).toNat = 0xdbff := rfl
      omega
    have htrail : isTrail (UInt16.ofNat c.toNat) = false := by
      simp only [isTrail, Bool.and_eq_false_iff, decide_eq_false_iff_not, UInt16.le_iff_toNat_le, hnat]
      have h1 : (0xdc00 : UInt16).toNat = 0xdc00 := rfl
      have h2 : (0xdfff : UInt16).toNat = 0xdfff := rfl
      omega
    rw [utf16_bmp hb, List.singleton_append, decodeUnits_plain hlead htrail, hnat, Char.ofNat_toNat]
  · -- two units, each with ten bits of what lies above the first plane
    have h1 : (UInt16.ofNat (0xd800 + (c.toNat - 0x10000) / 0x400)).toNat =
        0xd800 + (c.toNat - 0x10000) / 0x400 := UInt16.toNat_ofNat_of_lt (by show _ < 65536; omega)
    have h2 : (UInt16.ofNat (0xdc00 + (c.toNat - 0x10000) % 0x400)).toNat =
        0xdc00 + (c.toNat - 0x10000) % 0x400 := UInt16.toNat_ofNat_of_lt (by show _ < 65536; omega)
    have hlead : isLead (UInt16.ofNat (0xd800 + (c.toNat - 0x10000) / 0x400)) = true := by
      simp only [isLead, Bool.and_eq_true, decide_eq_true_eq, UInt16.le_iff_toNat_le, h1]
      have h3 : (0xd800 : UInt16).toNat = 0xd800 := rfl
      have h4 : (0xdbff : UInt16).toNat = 0xdbff := rfl
      omega
    have htrail : isTrail (UInt16.ofNat (0xdc00 + (c.toNat - 0x10000) % 0x400)) = true := by
      simp only [isTrail, Bool.and_eq_true, decide_eq_true_eq, UInt16.le_iff_toNat_le, h2]
      have h3 : (0xdc00 : UInt16).toNat = 0xdc00 := rfl
      have h4 : (0xdfff : UInt16).toNat = 0xdfff := rfl
      omega
    have hsum : 0x10000 + (0xd800 + (c.toNat - 0x10000) / 0x400 - 0xd800) * 0x400 +
        (0xdc00 + (c.toNat - 0x10000) % 0x400 - 0xdc00) = c.toNat := by omega
    rw [utf16, if_neg hb, List.cons_append, List.singleton_append, decodeUnits, hlead, htrail,
      Bool.and_self, if_pos rfl, h1, h2, hsum, Char.ofNat_toNat]

theorem decodeUnits_units (s : String) : decodeUnits (units s) = some s.toList := by
  unfold units
  induction s.toList with
  | nil => rfl
  | cons c cs ih => rw [List.flatMap_cons, decodeUnits_utf16, ih]; rfl

theorem units_injective {s t : String} (h : units s = units t) : s = t := by
  have hs := decodeUnits_units s
  rw [h, decodeUnits_units] at hs
  exact (String.toList_inj.mp (Option.some.inj hs)).symm

/-! Integers -/

/-- The digits of a number other than zero do not begin with a zero. -/
theorem head?_toDigits {n : ℕ} (hn : n ≠ 0) : (Nat.toDigits 10 n).head? ≠ some '0' := by
  induction n using Nat.strong_induction_on with
  | _ n ih =>
    by_cases hlt : n < 10
    · rw [Nat.toDigits_of_lt_base hlt]
      interval_cases n <;> first | exact absurd rfl hn | decide
    · rw [Nat.toDigits_of_base_le (by decide) (by omega), List.head?_append]
      have hhead := ih (n / 10) (by omega) (by omega)
      cases hd : (Nat.toDigits 10 (n / 10)).head? with
      | none => exact absurd (List.head?_eq_none_iff.mp hd) Nat.toDigits_ne_nil
      | some c =>
        rw [hd] at hhead
        simpa using hhead

/-- The unit of an ASCII character. -/
def asciiUnit (c : Char) : UInt16 := UInt16.ofNat c.toNat

theorem isDigit_asciiUnit {c : Char} (h : c.isDigit = true) : isDigit (asciiUnit c) = true := by
  have hc : 48 ≤ c.toNat ∧ c.toNat ≤ 57 := by
    simp only [Char.isDigit, Bool.and_eq_true, decide_eq_true_eq] at h
    exact ⟨h.1, h.2⟩
  have hnat : (asciiUnit c).toNat = c.toNat := UInt16.toNat_ofNat_of_lt (by show _ < 65536; omega)
  simp only [isDigit, Bool.and_eq_true, decide_eq_true_eq, UInt16.le_iff_toNat_le, hnat]
  exact hc

theorem flatMap_utf16_digits {cs : List Char} (h : ∀ c ∈ cs, c.isDigit = true) :
    cs.flatMap utf16 = cs.map asciiUnit := by
  induction cs with
  | nil => rfl
  | cons c cs ih =>
    have hc := h c List.mem_cons_self
    have hlt : c.toNat < 0x10000 := by
      simp only [Char.isDigit, Bool.and_eq_true, decide_eq_true_eq] at hc
      have h57 : c.toNat ≤ 57 := hc.2
      omega
    rw [List.flatMap_cons, List.map_cons, utf16_bmp hlt, ih fun c hc => h c (List.mem_cons_of_mem _ hc)]
    rfl

/-- Digits without a leading zero, perhaps after a sign, are a number. -/
theorem isNumber_of_digits {t : Units} (h : isInt (dropMinus t) = true) : isNumber t = true := by
  have hdigits : (dropMinus t).all isDigit = true := by
    simp only [isInt, isDigits, Bool.and_eq_true] at h
    exact h.1.2
  have hunit {c : UInt16} (hc : c ∈ dropMinus t) : inMantissa c = true ∧ c ≠ 0x2e := by
    have hd := List.all_eq_true.mp hdigits c hc
    simp only [isDigit, Bool.and_eq_true, decide_eq_true_eq, UInt16.le_iff_toNat_le] at hd
    have h57 : c.toNat ≤ 57 := hd.2
    have h48 : 48 ≤ c.toNat := hd.1
    have hne {d : UInt16} (hd : d.toNat < 48 ∨ 57 < d.toNat) : c ≠ d := by
      rintro rfl
      omega
    refine ⟨?_, hne (by decide)⟩
    simp only [inMantissa, Bool.and_eq_true, decide_eq_true_eq]
    exact ⟨hne (by decide), hne (by decide)⟩
  have hm : mantissa t = dropMinus t :=
    List.takeWhile_eq_self_iff.mpr fun c hc => (hunit hc).1
  have he : exponent t = [] := List.dropWhile_eq_nil_iff.mpr fun c hc => (hunit hc).1
  have hf : fraction t = [] := by
    unfold fraction
    rw [hm]
    exact List.dropWhile_eq_nil_iff.mpr fun c hc => decide_eq_true (hunit hc).2
  have hi : integer t = dropMinus t := by
    unfold integer
    rw [hm]
    exact List.takeWhile_eq_self_iff.mpr fun c hc => decide_eq_true (hunit hc).2
  unfold isNumber
  rw [hi, hf, he, h]
  rfl

theorem isInt_toDigits (n : ℕ) : isInt ((Nat.toDigits 10 n).map asciiUnit) = true := by
  have hall : ∀ c ∈ Nat.toDigits 10 n, c.isDigit = true := fun c hc =>
    Nat.isDigit_of_mem_toDigits (by omega) (by omega) hc
  have hdigits : isDigits ((Nat.toDigits 10 n).map asciiUnit) = true := by
    simp only [isDigits, Bool.and_eq_true, Bool.not_eq_true', List.isEmpty_eq_false_iff, ne_eq,
      List.map_eq_nil_iff, List.all_map, List.all_eq_true, Function.comp_apply]
    exact ⟨Nat.toDigits_ne_nil, fun c hc => isDigit_asciiUnit (hall c hc)⟩
  have hhead : ((Nat.toDigits 10 n).map asciiUnit).head? ≠ some 0x30 ∨
      ((Nat.toDigits 10 n).map asciiUnit).length = 1 := by
    by_cases hn : n = 0
    · subst hn
      exact Or.inr (by decide)
    · left
      intro hzero
      rw [List.head?_map, Option.map_eq_some_iff] at hzero
      obtain ⟨c, hc, hunit⟩ := hzero
      have hdigit := hall c (List.mem_of_head? hc)
      have hnat : (asciiUnit c).toNat = c.toNat := by
        simp only [Char.isDigit, Bool.and_eq_true, decide_eq_true_eq] at hdigit
        have h57 : c.toNat ≤ 57 := hdigit.2
        exact UInt16.toNat_ofNat_of_lt (by show _ < 65536; omega)
      have hc0 : c = '0' := by
        apply Char.toNat_inj.mp
        rw [← hnat, hunit]
        rfl
      exact head?_toDigits hn (hc0 ▸ hc)
  simp only [isInt, Bool.and_eq_true, Bool.or_eq_true, decide_eq_true_eq]
  exact ⟨hdigits, hhead⟩

theorem units_repr (n : ℕ) : units n.repr = (Nat.toDigits 10 n).map asciiUnit := by
  unfold units
  rw [Nat.toList_repr]
  exact flatMap_utf16_digits fun c hc => Nat.isDigit_of_mem_toDigits (by omega) (by omega) hc

theorem isNumber_toString (n : ℤ) : isNumber (units (toString n)) = true := by
  apply isNumber_of_digits
  cases n with
  | ofNat k =>
    show isInt (dropMinus (units k.repr)) = true
    have hplus : dropMinus (units k.repr) = units k.repr := by
      apply if_neg
      intro hminus
      rw [units_repr, List.head?_map, Option.map_eq_some_iff] at hminus
      obtain ⟨c, hc, hunit⟩ := hminus
      have hdigit := isDigit_asciiUnit
        (Nat.isDigit_of_mem_toDigits (by omega) (by omega) (List.mem_of_head? hc))
      rw [hunit] at hdigit
      exact absurd hdigit (by decide)
    rw [hplus, units_repr]
    exact isInt_toDigits k
  | negSucc k =>
    show isInt (dropMinus (units ("-" ++ (k+1).repr))) = true
    have hunits : units ("-" ++ (k+1).repr) = 0x2d :: units (k+1).repr := by
      unfold units
      rw [String.toList_append, List.flatMap_append]
      rfl
    rw [hunits, units_repr]
    exact isInt_toDigits (k+1)

/-- An integer as JSON writes it, as long as it needs no exponent. -/
def Number.ofInt (n : Int) : Number := ⟨units (toString n), isNumber_toString n⟩

/-- The value under a name; of equal names the last one counts. -/
def Json.member (name : String) : Json → Option Json
  | .object members => (members.reverse.find? fun m => m.1 = units name).map (·.2)
  | _ => none

theorem units_inj {s t : String} : units s = units t ↔ s = t :=
  ⟨units_injective, fun h => h ▸ rfl⟩

end JsonText
