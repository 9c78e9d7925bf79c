import WhisprMedia.AccessLogPartitions
import Mathlib.Data.Int.SuccPred
import Mathlib.Order.CompletePartialOrder

/-! The monthly partitions side by side: the range that is written for an instant holds it, ranges
follow one another month by month, and a partition's name tells its month. -/
namespace WhisprMedia
open Awaiting Calendar MediaAccessLogPartitionService

/-- The instants of the years 1970 to 9999. -/
def InYears (t : ℤ) : Prop :=
  1970 ≤ Calendar.getUTCFullYear t ∧ Calendar.getUTCFullYear t ≤ 9999

def SameMonth (t s : ℤ) : Prop :=
  Calendar.getUTCFullYear t = Calendar.getUTCFullYear s ∧
    Calendar.getUTCMonth t = Calendar.getUTCMonth s

/-- The month of `s` comes after that of `t`; months count from 0. -/
def FollowingMonth (t s : ℤ) : Prop :=
  (Calendar.getUTCFullYear s = Calendar.getUTCFullYear t ∧
      Calendar.getUTCMonth s = Calendar.getUTCMonth t + 1) ∨
    (Calendar.getUTCMonth t = 11 ∧ Calendar.getUTCMonth s = 0 ∧
      Calendar.getUTCFullYear s = Calendar.getUTCFullYear t + 1)

instance (t : ℤ) : Decidable (InYears t) := inferInstanceAs (Decidable (_ ∧ _))

instance (t s : ℤ) : Decidable (FollowingMonth t s) := inferInstanceAs (Decidable (_ ∨ _))

/-- The partitions that a body creates where there are none yet. -/
def created (x : Body Unit) : List Partition := (Prog.run lockServed x.run []).world

/-! Months and their numbers -/

theorem sameMonth_iff {t s : ℤ} : SameMonth t s ↔ monthIndex t = monthIndex s := by
  have ht := getUTCMonth_lt t
  have hs := getUTCMonth_lt s
  unfold SameMonth monthIndex
  omega

theorem monthIndex_of_following {t s : ℤ} (h : FollowingMonth t s) :
    monthIndex s = monthIndex t + 1 := by
  unfold FollowingMonth at h
  unfold monthIndex
  omega

theorem inYears_iff {t : ℤ} : InYears t ↔ 12 * 1970 ≤ monthIndex t ∧ monthIndex t < 12 * 10000 := by
  have ht := getUTCMonth_lt t
  unfold InYears monthIndex
  omega

theorem InYears.nonneg {t : ℤ} (h : InYears t) : 0 ≤ t := by
  have hstart := le_monthIndex_iff.mp (inYears_iff.mp h).1
  exact le_trans (by decide) hstart

/-- `Date` reaches far beyond the first months of the year 10000. -/
theorem timeClip_monthStart {i : ℤ} (h₀ : 12 * 1970 ≤ i) (h : i ≤ 12 * 10000 + 1) :
    timeClip (monthStart i) = some (monthStart i) := by
  have hlow : monthStart (12 * 1970) ≤ monthStart i := monthStart_strictMono.monotone h₀
  have hhigh : monthStart i ≤ monthStart (12 * 10000 + 1) := monthStart_strictMono.monotone h
  have hfirst : (0 : ℤ) ≤ monthStart (12 * 1970) := by decide
  have hlast : monthStart (12 * 10000 + 1) ≤ 8640000000000000 := by decide
  unfold timeClip
  rw [if_pos]
  rw [abs_of_nonneg (hfirst.trans hlow)]
  exact hhigh.trans hlast

/-! What is created -/

/-- The bounds that are written are read back as the month's. -/
theorem timestampIn_monthStart {i : ℤ} (h : 12 * 1970 ≤ i) :
    timestampIn (formatTimestamp (some (monthStart i))) = some (monthStart i) := by
  have hnonneg : 0 ≤ monthStart i :=
    le_trans (by decide) (monthStart_strictMono.monotone h)
  rw [timestampIn_formatTimestamp hnonneg, monthIndex_monthStart]

theorem created_ensurePartitionForMonth {t : ℤ} (h₀ : 12 * 1970 ≤ monthIndex t)
    (h : monthIndex t ≤ 12 * 10000) :
    created (ensurePartitionForMonth (some t)) = [partitionOf (monthIndex t)] := by
  have ht : 0 ≤ t := le_trans (by decide) (le_monthIndex_iff.mp h₀)
  have hstart : firstOfMonth (some t) 0 = some (monthStart (monthIndex t)) := by
    rw [firstOfMonth_eq ht, add_zero]
    exact timeClip_monthStart h₀ (by omega)
  have hend : firstOfMonth (some t) 1 = some (monthStart (monthIndex t + 1)) := by
    rw [firstOfMonth_eq ht]
    exact timeClip_monthStart (by omega) (by omega)
  have hlt : ¬ monthStart (monthIndex t + 1) ≤ monthStart (monthIndex t) :=
    not_le.mpr (monthStart_strictMono (lt_add_one _))
  unfold created
  rw [(run_ensurePartitionForMonth (some t) []).1, hstart, hend]
  -- the statement finds no partition of the name, and none that overlaps
  unfold createPartition
  rw [if_neg (by simp), timestampIn_monthStart h₀, timestampIn_monthStart (by omega)]
  simp only [if_neg hlt, List.any_nil, Bool.false_eq_true, if_false, List.nil_append]
  rfl

theorem created_createNextMonthPartition {t : ℤ} (h : InYears t) :
    created (createNextMonthPartition (some t)) = [partitionOf (monthIndex t + 1)] := by
  obtain ⟨h₀, h₁⟩ := inYears_iff.mp h
  have hnext : firstOfMonth (some t) 1 = some (monthStart (monthIndex t + 1)) := by
    rw [firstOfMonth_eq h.nonneg]
    exact timeClip_monthStart (by omega) (by omega)
  unfold createNextMonthPartition
  rw [hnext]
  have hcreated := @created_ensurePartitionForMonth (monthStart (monthIndex t + 1))
  rw [monthIndex_monthStart] at hcreated
  exact hcreated (by omega) (by omega)

/-- Ranges of different months are apart. -/
theorem partitionOf_disjoint {i j : ℤ} (h : i ≠ j) :
    Disjoint (Set.Ico (partitionOf i).lower (partitionOf i).upper)
      (Set.Ico (partitionOf j).lower (partitionOf j).upper) := by
  have hapart := monthStart_strictMono.monotone.pairwise_disjoint_on_Ico_succ h
  simp only [Function.onFun, Order.succ_eq_add_one] at hapart
  exact hapart

theorem partitionOf_name {i j : ℤ} (hi : 12 * 1970 ≤ i) (hj : 12 * 1970 ≤ j) :
    (partitionOf i).name = (partitionOf j).name ↔ i = j := by
  have hnonneg {k : ℤ} (hk : 12 * 1970 ≤ k) : 0 ≤ monthStart k :=
    le_trans (by decide) (monthStart_strictMono.monotone hk)
  constructor
  · intro h
    have hmonth := @monthIndex_of_formatPartitionName (some (monthStart i)) (monthStart j)
      (fun u hu => Option.some.inj hu ▸ hnonneg hi) (hnonneg hj) h
    simpa using hmonth
  · rintro rfl
    rfl

/-- The partitions tile the timeline: each is that of one month, from its first instant to the
first of the next one. -/
theorem monthly_partitions_tile (t : ℤ) (ht : InYears t) :
    ∃ p, created (ensurePartitionForMonth (some t)) = [p] ∧ t ∈ Set.Ico p.lower p.upper ∧
      (∃ q, created (createNextMonthPartition (some t)) = [q] ∧ q.lower = p.upper) ∧
      ∀ s, InYears s → ∃ q, created (ensurePartitionForMonth (some s)) = [q] ∧
        (FollowingMonth t s → q.lower = p.upper) ∧
        (¬ SameMonth t s →
          Disjoint (Set.Ico p.lower p.upper) (Set.Ico q.lower q.upper)) ∧
        (p.name = q.name ↔ SameMonth t s) := by
  obtain ⟨h₀, h₁⟩ := inYears_iff.mp ht
  refine ⟨_, created_ensurePartitionForMonth h₀ (by omega), monthIndex_spec t, ?_, ?_⟩
  · exact ⟨_, created_createNextMonthPartition ht, rfl⟩
  · intro s hs
    obtain ⟨hs₀, hs₁⟩ := inYears_iff.mp hs
    refine ⟨_, created_ensurePartitionForMonth hs₀ (by omega), ?_, ?_, ?_⟩
    · intro hnext
      rw [monthIndex_of_following hnext]
      rfl
    · intro hother
      exact partitionOf_disjoint fun h => hother (sameMonth_iff.mpr h)
    · rw [sameMonth_iff]
      exact partitionOf_name h₀ hs₀

/-- 31 December 2026, and the month after it. -/
theorem monthly_partitions_tile_new_year : ∃ p q, created (ensurePartitionForMonth
      (some 1798675200000)) = [p] ∧
    created (ensurePartitionForMonth (some 1798761600000)) = [q] ∧ q.lower = p.upper := by
  obtain ⟨p, hp, -, -, hall⟩ := monthly_partitions_tile 1798675200000 (by decide +kernel)
  obtain ⟨q, hq, hnext, -⟩ := hall 1798761600000 (by decide +kernel)
  exact ⟨p, q, hp, hq, hnext (by decide +kernel)⟩

end WhisprMedia
