import Mathlib.Data.Int.Notation
import Mathlib.Data.Nat.Notation
import Mathlib.Tactic.Common

/-! Numbers in decimal: what a text of digits stands for. -/
namespace WhisprMedia

/-- The value of decimal digits. -/
def readDigits (cs : List Char) : Option Int :=
  if !cs.isEmpty && cs.all Char.isDigit then some (Nat.ofDigitChars 10 cs 0) else none

/-- An integer in decimal. -/
def readInteger : List Char → Option Int
  | '-' :: cs => (readDigits cs).map fun n => -n
  | cs => readDigits cs

theorem readDigits_toDigits (n : ℕ) : readDigits (Nat.toDigits 10 n) = some (n : ℤ) := by
  have hne : (Nat.toDigits 10 n).isEmpty = false := by
    simp [Nat.toDigits_ne_nil]
  have hall : (Nat.toDigits 10 n).all Char.isDigit = true := by
    rw [List.all_eq_true]
    intro c hc
    exact Nat.isDigit_of_mem_toDigits (by omega) (by omega) hc
  simp only [readDigits, hne, hall, Bool.not_false, Bool.and_self, ↓reduceIte,
    Nat.ofDigitChars_ten_toDigits]

theorem readInteger_toDigits (n : ℕ) : readInteger (Nat.toDigits 10 n) = some (n : ℤ) := by
  unfold readInteger
  split
  · next cs h =>
    have hd : ('-' : Char).isDigit = true :=
      Nat.isDigit_of_mem_toDigits (by omega) (by omega) (h ▸ List.mem_cons_self)
    simp at hd
  · exact readDigits_toDigits n

end WhisprMedia
