import Mathlib.Data.Int.ConditionallyCompleteOrder
import Mathlib.Order.Monotone.Basic
import Mathlib.Order.SuccPred.IntervalSucc
import Mathlib.Tactic.IntervalCases

/-! Dates in UTC as ECMAScript computes them. A time value counts the milliseconds since the start
of 1970, days and years are those of the proleptic Gregorian calendar, and months are numbered
through from January of the year 0. -/
namespace Calendar

def msPerDay : ℤ := 86400000

def isLeap (y : ℤ) : Bool := y % 4 = 0 && (y % 100 ≠ 0 || y % 400 = 0)

def daysInYear (y : ℤ) : ℤ := if isLeap y then 366 else 365

/-- The number of the first day of a year. -/
def dayFromYear (y : ℤ) : ℤ :=
  365 * (y - 1970) + (y - 1969) / 4 - (y - 1901) / 100 + (y - 1601) / 400

/-- The days of a year before a month. -/
def daysBefore (leap : Bool) (m : ℕ) : ℤ :=
  let l := if leap then 1 else 0
  match m with
  | 0 => 0
  | 1 => 31
  | 2 => 59 + l
  | 3 => 90 + l
  | 4 => 120 + l
  | 5 => 151 + l
  | 6 => 181 + l
  | 7 => 212 + l
  | 8 => 243 + l
  | 9 => 273 + l
  | 10 => 304 + l
  | 11 => 334 + l
  | _ => 365 + l

/-- The month that a day of a year lies in. -/
def monthInYear (leap : Bool) (k : ℤ) : ℕ := Nat.findGreatest (fun m => daysBefore leap m ≤ k) 11

/-- The year that a day lies in: an estimate by the mean length of a year, off by one at most. -/
def yearFromDay (d : ℤ) : ℤ :=
  let y := 1970 + 400 * d / 146097
  if d < dayFromYear y then y - 1 else if dayFromYear (y + 1) ≤ d then y + 1 else y

def day (t : ℤ) : ℤ := t / msPerDay

def getUTCFullYear (t : ℤ) : ℤ := yearFromDay (day t)

def getUTCMonth (t : ℤ) : ℕ :=
  monthInYear (isLeap (getUTCFullYear t)) (day t - dayFromYear (getUTCFullYear t))

/-- The number of the month that a time lies in. -/
def monthIndex (t : ℤ) : ℤ := 12 * getUTCFullYear t + getUTCMonth t

/-- The number of the first day of a month. -/
def monthDay (i : ℤ) : ℤ := dayFromYear (i / 12) + daysBefore (isLeap (i / 12)) (i % 12).toNat

/-- When a month starts. -/
def monthStart (i : ℤ) : ℤ := monthDay i * msPerDay

/-- What is farther from 1970 than `Date` reaches is `NaN`. -/
def timeClip (t : ℤ) : Option ℤ := if |t| ≤ 8640000000000000 then some t else none

/-- `Date.UTC(year, month, 1)`; the years 0 to 99 stand for those of the twentieth century. -/
def utc (year month : ℤ) : Option ℤ :=
  let y := if 0 ≤ year ∧ year ≤ 99 then 1900 + year else year
  timeClip (monthStart (12 * y + month))

theorem dayFromYear_succ (y : ℤ) : dayFromYear (y + 1) = dayFromYear y + daysInYear y := by
  have h4 : (y + 1 - 1969) / 4 = (y - 1969) / 4 + if y % 4 = 0 then 1 else 0 := by
    split <;> omega
  have h100 : (y + 1 - 1901) / 100 = (y - 1901) / 100 + if y % 100 = 0 then 1 else 0 := by
    split <;> omega
  have h400 : (y + 1 - 1601) / 400 = (y - 1601) / 400 + if y % 400 = 0 then 1 else 0 := by
    split <;> omega
  unfold dayFromYear daysInYear isLeap
  rw [h4, h100, h400]
  simp only [Bool.and_eq_true, Bool.or_eq_true, decide_eq_true_eq]
  split_ifs <;> omega

theorem yearFromDay_spec (d : ℤ) :
    dayFromYear (yearFromDay d) ≤ d ∧ d < dayFromYear (yearFromDay d + 1) := by
  have hlow : dayFromYear (1970 + 400 * d / 146097 - 1) ≤ d := by
    unfold dayFromYear
    omega
  have hhigh : d < dayFromYear (1970 + 400 * d / 146097 + 1 + 1) := by
    unfold dayFromYear
    omega
  unfold yearFromDay
  dsimp only
  split_ifs with h₁ h₂
  · rw [sub_add_cancel]
    exact ⟨hlow, h₁⟩
  · exact ⟨h₂, hhigh⟩
  · exact ⟨not_lt.mp h₁, not_le.mp h₂⟩

theorem daysBefore_lt_succ (leap : Bool) {m : ℕ} (h : m < 12) :
    daysBefore leap m < daysBefore leap (m + 1) := by
  interval_cases m <;> cases leap <;> decide

theorem monthInYear_spec {y k : ℤ} (h₀ : 0 ≤ k) (h : k < daysInYear y) :
    monthInYear (isLeap y) k < 12 ∧ daysBefore (isLeap y) (monthInYear (isLeap y) k) ≤ k ∧
      k < daysBefore (isLeap y) (monthInYear (isLeap y) k + 1) := by
  have hle : monthInYear (isLeap y) k ≤ 11 := Nat.findGreatest_le 11
  have hspec : daysBefore (isLeap y) (monthInYear (isLeap y) k) ≤ k :=
    Nat.findGreatest_spec (P := fun m => daysBefore (isLeap y) m ≤ k) (Nat.zero_le 11) h₀
  refine ⟨by omega, hspec, ?_⟩
  rcases Nat.lt_or_ge (monthInYear (isLeap y) k) 11 with hlt | hge
  · exact not_le.mp (Nat.findGreatest_is_greatest (Nat.lt_succ_self _) hlt)
  · -- the last month ends with the year
    rw [le_antisymm hle hge]
    show k < 365 + if isLeap y then 1 else 0
    unfold daysInYear at h
    split_ifs at * <;> omega

theorem monthDay_of (y : ℤ) {m : ℕ} (hm : m < 12) :
    monthDay (12 * y + m) = dayFromYear y + daysBefore (isLeap y) m := by
  have hy : (12 * y + m) / 12 = y := by omega
  have hmod : ((12 * y + m) % 12).toNat = m := by omega
  unfold monthDay
  rw [hy, hmod]

/-- The next month starts where the days of the month end. -/
theorem monthDay_of_succ (y : ℤ) {m : ℕ} (hm : m < 12) :
    monthDay (12 * y + m + 1) = dayFromYear y + daysBefore (isLeap y) (m + 1) := by
  rcases Nat.lt_or_ge (m + 1) 12 with hlt | hge
  · rw [← monthDay_of y hlt, Nat.cast_succ, add_assoc]
  · -- from December to January
    obtain rfl : m = 11 := by omega
    have hnext : 12 * y + (11 : ℕ) + 1 = 12 * (y + 1) + (0 : ℕ) := by
      push_cast
      omega
    rw [hnext, monthDay_of (y + 1) (by omega), dayFromYear_succ]
    show dayFromYear y + daysInYear y + 0 = dayFromYear y + (365 + if isLeap y then 1 else 0)
    unfold daysInYear
    split_ifs <;> omega

theorem monthDay_strictMono : StrictMono monthDay := by
  apply strictMono_int_of_lt_succ
  intro i
  have hi : i = 12 * (i / 12) + (i % 12).toNat := by omega
  have hm : (i % 12).toNat < 12 := by omega
  rw [hi, monthDay_of _ hm, monthDay_of_succ _ hm]
  exact add_lt_add_right (daysBefore_lt_succ _ hm) _

theorem monthStart_strictMono : StrictMono monthStart :=
  fun _ _ h => mul_lt_mul_of_pos_right (monthDay_strictMono h) (by decide)

/-- A time lies in the month with its number. -/
theorem monthIndex_spec (t : ℤ) : monthStart (monthIndex t) ≤ t ∧ t < monthStart (monthIndex t + 1) := by
  obtain ⟨hyear, hnext⟩ := yearFromDay_spec (day t)
  rw [dayFromYear_succ] at hnext
  obtain ⟨hm, hlow, hhigh⟩ := @monthInYear_spec (getUTCFullYear t)
    (day t - dayFromYear (getUTCFullYear t)) (sub_nonneg.mpr hyear) (by unfold getUTCFullYear; omega)
  have hday : monthDay (monthIndex t) ≤ day t ∧ day t < monthDay (monthIndex t + 1) := by
    unfold monthIndex getUTCMonth
    rw [monthDay_of _ hm, monthDay_of_succ _ hm]
    omega
  unfold monthStart
  unfold day msPerDay at hday
  unfold msPerDay
  omega

/-- Which months have started at a time. -/
theorem le_monthIndex_iff {i t : ℤ} : i ≤ monthIndex t ↔ monthStart i ≤ t := by
  constructor
  · intro h
    exact (monthStart_strictMono.monotone h).trans (monthIndex_spec t).1
  · intro h
    have hlt := monthStart_strictMono.lt_iff_lt.mp (h.trans_lt (monthIndex_spec t).2)
    omega

theorem monthIndex_lt_iff {i t : ℤ} : monthIndex t < i ↔ t < monthStart i := by
  rw [← not_le, ← not_le, le_monthIndex_iff]

theorem monthIndex_eq_iff {i t : ℤ} : monthIndex t = i ↔ monthStart i ≤ t ∧ t < monthStart (i + 1) := by
  rw [← le_monthIndex_iff, ← monthIndex_lt_iff]
  omega

theorem monthIndex_mono {s t : ℤ} (h : s ≤ t) : monthIndex s ≤ monthIndex t :=
  le_monthIndex_iff.mpr ((monthIndex_spec s).1.trans h)

@[simp] theorem monthIndex_monthStart (i : ℤ) : monthIndex (monthStart i) = i :=
  monthIndex_eq_iff.mpr ⟨le_rfl, monthStart_strictMono (by omega)⟩

theorem getUTCMonth_lt (t : ℤ) : getUTCMonth t < 12 := by
  unfold getUTCMonth monthInYear
  exact Nat.lt_succ_of_le (Nat.findGreatest_le 11)

theorem getUTCFullYear_eq (t : ℤ) : getUTCFullYear t = monthIndex t / 12 := by
  have hm := getUTCMonth_lt t
  unfold monthIndex
  omega

/-- The start of the month `m` months after that of a time. -/
theorem utc_eq {t : ℤ} (h : 100 ≤ getUTCFullYear t) (m : ℤ) :
    utc (getUTCFullYear t) (getUTCMonth t + m) = timeClip (monthStart (monthIndex t + m)) := by
  unfold utc
  dsimp only
  rw [if_neg (by omega), ← add_assoc]
  rfl

/-- The years after 1970. -/
theorem le_getUTCFullYear {t : ℤ} (h : 0 ≤ t) : 1970 ≤ getUTCFullYear t := by
  have hstart : 12 * 1970 ≤ monthIndex t := le_monthIndex_iff.mpr (le_trans (by decide) h)
  rw [getUTCFullYear_eq]
  omega

end Calendar
