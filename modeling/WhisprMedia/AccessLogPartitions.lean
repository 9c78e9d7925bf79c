import WhisprMedia.AwaitProgram
import WhisprMedia.Calendar
import WhisprMedia.Decimals

/-! The monthly partitions of the access log: one is created when the service starts, for the
current month, and one on the first of every month, for the next. -/
namespace WhisprMedia
open Awaiting Calendar

def ADVISORY_LOCK_KEY : ℕ := 350001

/-- A `Date`: a time value, or `NaN`. -/
abbrev Date := Option ℤ

/-- The queries of the service. -/
inductive PartitionCmd where
  | pg_try_advisory_lock (key : ℕ)
  /-- `CREATE TABLE IF NOT EXISTS "media"."partitionName" PARTITION OF ... FOR VALUES FROM ... TO ...` -/
  | createTable (partitionName fromDate toDate : String)
  | pg_advisory_unlock (key : ℕ)
  deriving DecidableEq

abbrev PartitionCmd.Value : PartitionCmd → Type
  | .pg_try_advisory_lock _ => Except String Bool
  | .createTable _ _ _ => Except String Unit
  | .pg_advisory_unlock _ => Except String Bool

abbrev PartitionEvent := Event PartitionCmd PartitionCmd.Value

namespace MediaAccessLogPartitionService

abbrev Body (α : Type) := ProgE PartitionCmd PartitionCmd.Value String α

/-- `String(n)` -/
def text : Option ℤ → String
  | some n => toString n
  | none => "NaN"

def padStart (width : ℕ) (fill : Char) (s : String) : String :=
  String.ofList (List.replicate (width - s.length) fill) ++ s

def getUTCFullYear (date : Date) : Option ℤ := date.map Calendar.getUTCFullYear

def getUTCMonth (date : Date) : Option ℤ := date.map fun t => (Calendar.getUTCMonth t : ℤ)

/-- The year and the month, from 01 to 12, in a template string. -/
def yearText (date : Date) : String := text (getUTCFullYear date)

def monthText (date : Date) : String := padStart 2 '0' (text ((getUTCMonth date).map (· + 1)))

def formatPartitionName (date : Date) : String :=
  s!"media_access_logs_{yearText date}_{monthText date}"

def formatTimestamp (date : Date) : String := s!"{yearText date}-{monthText date}-01 00:00:00+00"

/-- `new Date(Date.UTC(date.getUTCFullYear(), date.getUTCMonth() + months, 1))` -/
def firstOfMonth (date : Date) (months : ℤ) : Date :=
  date.bind fun t => utc (Calendar.getUTCFullYear t) (Calendar.getUTCMonth t + months)

def ensurePartitionForMonth (date : Date) : Body Unit := do
  let start := firstOfMonth date 0
  let end_ := firstOfMonth date 1
  let acquired ← ProgE.issue (.pg_try_advisory_lock ADVISORY_LOCK_KEY) fun r => r
  if !acquired then
    pure ()
  else
    ProgE.ensuring
      (ProgE.issue (.createTable (formatPartitionName start) (formatTimestamp start)
        (formatTimestamp end_)) fun r => r)
      (ProgE.issue (.pg_advisory_unlock ADVISORY_LOCK_KEY) fun r => r.map fun _ => ())

/-- What it throws is only logged. -/
def onApplicationBootstrap (now : Date) : Body Unit :=
  tryCatch (ensurePartitionForMonth now) fun _ => pure ()

def createNextMonthPartition (now : Date) : Body Unit :=
  ensurePartitionForMonth (firstOfMonth now 1)

end MediaAccessLogPartitionService

open MediaAccessLogPartitionService

/-- A partition of the access log with its range. -/
structure Partition where
  name : String
  lower : ℤ
  upper : ℤ
  deriving DecidableEq

/-- Postgres reads a timestamp as the service writes them. -/
def timestampIn (s : String) : Option ℤ :=
  match s.toList.dropWhile Char.isDigit with
  | '-' :: m₁ :: m₂ :: rest =>
    match readDigits (s.toList.takeWhile Char.isDigit), readDigits [m₁, m₂] with
    | some year, some month =>
      if rest = "-01 00:00:00+00".toList ∧ 1000 ≤ year ∧ 1 ≤ month ∧ month ≤ 12 then
        some (monthStart (12 * year + (month - 1)))
      else none
    | _, _ => none
  | _ => none

/-- `CREATE TABLE IF NOT EXISTS` for a partition. -/
def createPartition (name fromDate toDate : String) (ps : List Partition) :
    Except String Unit × List Partition :=
  if ps.any (·.name = name) then (.ok (), ps)
  else match timestampIn fromDate, timestampIn toDate with
    | some lower, some upper =>
      if upper ≤ lower then (.error "empty range bound specified for partition", ps)
      else if ps.any fun p => lower < p.upper && p.lower < upper then
        (.error "partition would overlap partition", ps)
      else (.ok (), ps ++ [⟨name, lower, upper⟩])
    | _, _ => (.error "invalid input syntax for type timestamp with time zone", ps)

/-- A database that always grants the lock. -/
def lockServed (c : PartitionCmd) (ps : List Partition) : c.Value × List Partition :=
  match c with
  | .pg_try_advisory_lock _ => (.ok true, ps)
  | .createTable name fromDate toDate => createPartition name fromDate toDate ps
  | .pg_advisory_unlock _ => (.ok true, ps)

/-- Whether a DDL statement succeeded. -/
def PartitionEvent.Succeeded : PartitionEvent → Bool
  | ⟨.createTable _ _ _, .error _⟩ => false
  | _ => true

/-! The texts of the service, read back -/

theorem text_natCast (k : ℕ) : (text (some (k : ℤ))).toList = Nat.toDigits 10 k := Nat.toList_repr

theorem toList_padStart (width : ℕ) (fill : Char) (s : String) :
    (padStart width fill s).toList = List.replicate (width - s.toList.length) fill ++ s.toList := by
  simp [padStart, String.length_toList]

/-- The months are written with two digits. -/
theorem toList_padStart_month {k : ℕ} (h₁ : 1 ≤ k) (h₂ : k ≤ 12) :
    ∃ a b, (padStart 2 '0' (text (some (k : ℤ)))).toList = [a, b] ∧ readDigits [a, b] = some (k : ℤ) := by
  rw [toList_padStart, text_natCast]
  interval_cases k <;> exact ⟨_, _, rfl, by decide⟩

theorem toList_monthText (t : ℤ) :
    ∃ a b, (monthText (some t)).toList = [a, b] ∧
      readDigits [a, b] = some ((Calendar.getUTCMonth t : ℤ) + 1) :=
  toList_padStart_month (Nat.le_add_left 1 _) (getUTCMonth_lt t)

theorem toList_yearText {t : ℤ} (h : 0 ≤ t) :
    ∃ y : ℕ, Calendar.getUTCFullYear t = y ∧ (yearText (some t)).toList = Nat.toDigits 10 y := by
  obtain ⟨y, hy⟩ := Int.eq_ofNat_of_zero_le (le_trans (by decide) (le_getUTCFullYear h))
  refine ⟨y, hy, ?_⟩
  show (text (some (Calendar.getUTCFullYear t))).toList = _
  rw [hy, text_natCast]

theorem toList_formatTimestamp (date : Date) : (formatTimestamp date).toList =
    (yearText date).toList ++ '-' :: ((monthText date).toList ++ "-01 00:00:00+00".toList) := by
  have hdash : "-".toList = ['-'] := rfl
  show (yearText date ++ "-" ++ monthText date ++ "-01 00:00:00+00").toList = _
  rw [String.toList_append, String.toList_append, String.toList_append, List.append_assoc,
    List.append_assoc, hdash, List.singleton_append]

theorem toList_formatPartitionName (date : Date) : (formatPartitionName date).toList =
    "media_access_logs_".toList ++ ((yearText date).toList ++ '_' :: (monthText date).toList) := by
  show ("media_access_logs_" ++ yearText date ++ "_" ++ monthText date).toList = _
  rw [String.toList_append, String.toList_append, String.toList_append, List.append_assoc,
    List.append_assoc]
  rfl

/-- A bound is read as the start of the month that it was written for. -/
theorem timestampIn_formatTimestamp {t : ℤ} (h : 0 ≤ t) :
    timestampIn (formatTimestamp (some t)) = some (monthStart (monthIndex t)) := by
  obtain ⟨y, hy, hyear⟩ := toList_yearText h
  obtain ⟨a, b, hmonth, hread⟩ := toList_monthText t
  have hdigits : ∀ c ∈ Nat.toDigits 10 y, c.isDigit = true :=
    fun c hc => Nat.isDigit_of_mem_toDigits (by omega) (by omega) hc
  have hlate := le_getUTCFullYear h
  have hm := getUTCMonth_lt t
  unfold timestampIn
  rw [toList_formatTimestamp, hyear, hmonth, List.dropWhile_append_of_pos hdigits,
    List.takeWhile_append_of_pos hdigits]
  have hdash : ('-' : Char).isDigit = false := by decide
  simp only [List.dropWhile_cons, List.takeWhile_cons, hdash, List.cons_append, List.nil_append,
    List.append_nil, Bool.false_eq_true, if_false, readDigits_toDigits, hread]
  rw [if_pos ⟨trivial, by omega, by omega, by omega⟩, add_sub_cancel_right, ← hy]
  rfl

theorem timestampIn_nan : timestampIn (formatTimestamp none) = none := by
  unfold timestampIn
  rw [toList_formatTimestamp]
  rfl

/-- Different months have different partition names. -/
theorem monthIndex_of_formatPartitionName {date : Date} {s : ℤ} (hdate : ∀ t ∈ date, 0 ≤ t)
    (hs : 0 ≤ s) (h : formatPartitionName date = formatPartitionName (some s)) :
    date.map monthIndex = some (monthIndex s) := by
  obtain ⟨z, hz, hyear'⟩ := toList_yearText hs
  obtain ⟨a', b', hmonth', hread'⟩ := toList_monthText s
  have hlist := congrArg String.toList h
  rw [toList_formatPartitionName, toList_formatPartitionName, hyear', hmonth'] at hlist
  replace hlist := List.append_cancel_left hlist
  cases date with
  | none =>
    -- `NaN` is no digit
    have hne : Nat.toDigits 10 z ≠ [] := Nat.toDigits_ne_nil
    obtain ⟨c, cs, hcs⟩ := List.exists_cons_of_ne_nil hne
    have hc : c.isDigit = true :=
      Nat.isDigit_of_mem_toDigits (b := 10) (by omega) (by omega) (hcs ▸ List.mem_cons_self)
    rw [hcs] at hlist
    obtain ⟨rfl, -⟩ := List.cons.inj hlist
    exact absurd hc (by decide)
  | some t =>
    obtain ⟨y, hy, hyear⟩ := toList_yearText (hdate t rfl)
    obtain ⟨a, b, hmonth, hread⟩ := toList_monthText t
    rw [hyear, hmonth] at hlist
    obtain ⟨hdigits, hmonths⟩ := List.append_inj' hlist rfl
    obtain ⟨rfl, rfl⟩ : a = a' ∧ b = b' := by simpa using hmonths
    have hyz : y = z := by
      have hread := congrArg (Nat.ofDigitChars 10 · 0) hdigits
      simpa only [Nat.ofDigitChars_ten_toDigits] using hread
    have hmm := Option.some.inj (hread.symm.trans hread')
    show some (monthIndex t) = some (monthIndex s)
    unfold monthIndex
    rw [hy, hz, hyz, add_right_cancel hmm]

/-! The partitions of a service from its start on -/

/-- When the cron fires after `s` and up to `t`: on the first of every month. -/
def cronTimes (s t : ℤ) : List ℤ :=
  (List.range (monthIndex t - monthIndex s).toNat).map fun (k : ℕ) => monthStart (monthIndex s + 1 + k)

theorem mem_cronTimes {s t c : ℤ} :
    c ∈ cronTimes s t ↔ s < c ∧ c ≤ t ∧ ∃ i, c = monthStart i := by
  unfold cronTimes
  rw [List.mem_map]
  constructor
  · rintro ⟨k, hk, rfl⟩
    have hk := List.mem_range.mp hk
    refine ⟨?_, ?_, _, rfl⟩
    · rw [← monthIndex_lt_iff]
      omega
    · rw [← le_monthIndex_iff]
      omega
  · rintro ⟨hs, ht, i, rfl⟩
    rw [← monthIndex_lt_iff] at hs
    rw [← le_monthIndex_iff] at ht
    refine ⟨(i - monthIndex s - 1).toNat, List.mem_range.mpr (by omega), congrArg monthStart ?_⟩
    omega

/-- The runs of the cron at the given times. -/
def cronRuns : List ℤ → Prog PartitionCmd PartitionCmd.Value Unit
  | [] => pure ()
  | now :: later => do
    let _ ← (createNextMonthPartition (some now)).run
    cronRuns later

/-- What a service that starts at `s` runs until `t`. -/
def serviceRuns (s t : ℤ) : Prog PartitionCmd PartitionCmd.Value Unit := do
  let _ ← (onApplicationBootstrap (some s)).run
  cronRuns (cronTimes s t)

/-- The partition of a month. -/
def partitionOf (i : ℤ) : Partition :=
  ⟨formatPartitionName (some (monthStart i)), monthStart i, monthStart (i + 1)⟩

/-- The partitions are those of the months in `I`. -/
structure PartitionsOf (I : Set ℤ) (ps : List Partition) : Prop where
  after1970 : ∀ i ∈ I, 0 ≤ monthStart i
  mem_iff : ∀ p, p ∈ ps ↔ ∃ i ∈ I, p = partitionOf i

theorem timeClip_cases (t : ℤ) : timeClip t = some t ∨ timeClip t = none := by
  unfold timeClip
  split_ifs
  · exact Or.inl rfl
  · exact Or.inr rfl

theorem firstOfMonth_eq {t : ℤ} (h : 0 ≤ t) (m : ℤ) :
    firstOfMonth (some t) m = timeClip (monthStart (monthIndex t + m)) :=
  utc_eq (le_trans (by decide) (le_getUTCFullYear h)) m

theorem monthStart_nonneg {t i : ℤ} (h : 0 ≤ t) (hi : monthIndex t ≤ i) : 0 ≤ monthStart i := by
  have hstart : monthStart (monthIndex 0) ≤ monthStart i :=
    monthStart_strictMono.monotone ((monthIndex_mono h).trans hi)
  exact le_trans (by decide) hstart

/-- A DDL statement that succeeds has found its partition or created it. -/
theorem createPartition_ok {name fromDate toDate : String} {ps : List Partition}
    (hok : (createPartition name fromDate toDate ps).1 = .ok ()) :
    (∃ p ∈ ps, p.name = name ∧ (createPartition name fromDate toDate ps).2 = ps) ∨
    ∃ lower upper, timestampIn fromDate = some lower ∧ timestampIn toDate = some upper ∧
      (createPartition name fromDate toDate ps).2 = ps ++ [⟨name, lower, upper⟩] := by
  unfold createPartition at hok ⊢
  split at hok
  · next hname =>
    obtain ⟨p, hp, hpname⟩ := List.any_eq_true.mp hname
    rw [if_pos hname]
    exact Or.inl ⟨p, hp, of_decide_eq_true hpname, rfl⟩
  · next hname =>
    rw [if_neg hname]
    split at hok
    · next lower upper hl hu =>
      rw [hl, hu]
      split_ifs at hok ⊢
      exact Or.inr ⟨lower, upper, rfl, rfl, rfl⟩
    · cases hok

/-- The first of a month that exists, some months after a date. -/
theorem firstOfMonth_some {date : Date} (hdate : ∀ t ∈ date, 0 ≤ t) {m u : ℤ}
    (h : firstOfMonth date m = some u) : ∃ t ∈ date, u = monthStart (monthIndex t + m) := by
  cases date with
  | none => cases h
  | some t =>
    rw [firstOfMonth_eq (hdate t rfl)] at h
    rcases timeClip_cases (monthStart (monthIndex t + m)) with hc | hc
    · rw [hc] at h
      exact ⟨t, rfl, (Option.some.inj h).symm⟩
    · rw [hc] at h
      cases h

/-- A bound that Postgres reads is the first of its month. -/
theorem timestampIn_firstOfMonth {date : Date} (hdate : ∀ t ∈ date, 0 ≤ t) {m b : ℤ} (hm : 0 ≤ m)
    (h : timestampIn (formatTimestamp (firstOfMonth date m)) = some b) :
    firstOfMonth date m = some b ∧ ∃ t ∈ date, b = monthStart (monthIndex t + m) := by
  cases hfirst : firstOfMonth date m with
  | none =>
    rw [hfirst, timestampIn_nan] at h
    cases h
  | some u =>
    obtain ⟨t, ht, rfl⟩ := firstOfMonth_some hdate hfirst
    have hnonneg := monthStart_nonneg (i := monthIndex t + m) (hdate t ht) (by omega)
    rw [hfirst, timestampIn_formatTimestamp hnonneg, monthIndex_monthStart] at h
    obtain rfl := Option.some.inj h
    exact ⟨rfl, t, ht, rfl⟩

/-- The DDL statement for a date, when it succeeds, leaves the partition of the date's month. -/
theorem createPartition_spec {date : Date} {I : Set ℤ} {ps : List Partition}
    (hdate : ∀ t ∈ date, 0 ≤ t) (h : PartitionsOf I ps)
    (hok : (createPartition (formatPartitionName (firstOfMonth date 0))
      (formatTimestamp (firstOfMonth date 0)) (formatTimestamp (firstOfMonth date 1)) ps).1 = .ok ()) :
    ∃ t ∈ date, PartitionsOf (insert (monthIndex t) I)
      (createPartition (formatPartitionName (firstOfMonth date 0))
        (formatTimestamp (firstOfMonth date 0)) (formatTimestamp (firstOfMonth date 1)) ps).2 := by
  rcases createPartition_ok hok with ⟨p, hp, hname, hps⟩ | ⟨lower, upper, hl, hu, hps⟩
  · -- the partition was there, and its name tells its month
    obtain ⟨j, hj, rfl⟩ := (h.mem_iff p).mp hp
    have hstart : ∀ u ∈ firstOfMonth date 0, 0 ≤ u := by
      intro u hu
      obtain ⟨t, ht, rfl⟩ := firstOfMonth_some hdate hu
      exact monthStart_nonneg (hdate t ht) (by omega)
    have hmonth := monthIndex_of_formatPartitionName hstart (h.after1970 j hj) hname.symm
    obtain ⟨u, hu, hindex⟩ := Option.map_eq_some_iff.mp hmonth
    obtain ⟨t, ht, rfl⟩ := firstOfMonth_some hdate hu
    rw [monthIndex_monthStart, monthIndex_monthStart, add_zero] at hindex
    refine ⟨t, ht, ?_⟩
    rw [hps, hindex, Set.insert_eq_of_mem hj]
    exact h
  · obtain ⟨hfirst, t, ht, rfl⟩ := timestampIn_firstOfMonth hdate le_rfl hl
    obtain ⟨-, t', ht', rfl⟩ := timestampIn_firstOfMonth hdate zero_le_one hu
    obtain rfl := Option.some.inj (ht.symm.trans ht')
    rw [add_zero] at hfirst
    refine ⟨t, ht, ⟨?_, fun p => ?_⟩⟩
    · rintro i (rfl | hi)
      · exact monthStart_nonneg (hdate t ht) le_rfl
      · exact h.after1970 i hi
    · rw [hps, hfirst, List.mem_append, List.mem_singleton, h.mem_iff, add_zero]
      constructor
      · rintro (⟨i, hi, rfl⟩ | rfl)
        · exact ⟨i, Or.inr hi, rfl⟩
        · exact ⟨monthIndex t, Or.inl rfl, rfl⟩
      · rintro ⟨i, rfl | hi, rfl⟩
        · exact Or.inr rfl
        · exact Or.inl ⟨i, hi, rfl⟩

/-- A run for a date is its DDL statement, between the lock and the unlock. -/
theorem run_ensurePartitionForMonth (date : Date) (ps : List Partition) :
    let ddl := createPartition (formatPartitionName (firstOfMonth date 0))
      (formatTimestamp (firstOfMonth date 0)) (formatTimestamp (firstOfMonth date 1)) ps
    (Prog.run lockServed (ensurePartitionForMonth date).run ps).world = ddl.2 ∧
      ⟨.createTable (formatPartitionName (firstOfMonth date 0))
        (formatTimestamp (firstOfMonth date 0)) (formatTimestamp (firstOfMonth date 1)), ddl.1⟩ ∈
          (Prog.run lockServed (ensurePartitionForMonth date).run ps).log := by
  refine ⟨rfl, ?_⟩
  exact List.mem_cons_of_mem _ List.mem_cons_self

theorem ensurePartitionForMonth_spec {date : Date} {I : Set ℤ} {ps : List Partition}
    (hdate : ∀ t ∈ date, 0 ≤ t) (h : PartitionsOf I ps)
    (hok : ∀ e ∈ (Prog.run lockServed (ensurePartitionForMonth date).run ps).log,
      PartitionEvent.Succeeded e) :
    ∃ t ∈ date, PartitionsOf (insert (monthIndex t) I)
      (Prog.run lockServed (ensurePartitionForMonth date).run ps).world := by
  obtain ⟨hworld, hmem⟩ := run_ensurePartitionForMonth date ps
  have hddl := hok _ hmem
  rw [hworld]
  apply createPartition_spec hdate h
  generalize (createPartition _ _ _ ps).1 = r at hddl ⊢
  cases r with
  | ok u => rfl
  | error e => cases hddl

/-- The bootstrap hook runs the same commands and throws nothing. -/
theorem run_onApplicationBootstrap (now : Date) (ps : List Partition) :
    (Prog.run lockServed (onApplicationBootstrap now).run ps).world =
        (Prog.run lockServed (ensurePartitionForMonth now).run ps).world ∧
      (Prog.run lockServed (onApplicationBootstrap now).run ps).log =
        (Prog.run lockServed (ensurePartitionForMonth now).run ps).log := by
  unfold onApplicationBootstrap
  rw [ProgE.run_tryCatch_eq, Prog.run_bind]
  cases (Prog.run lockServed (ensurePartitionForMonth now).run ps).result with
  | ok u => exact ⟨rfl, List.append_nil _⟩
  | error e => exact ⟨rfl, List.append_nil _⟩

/-- The cron adds the partitions of the months after those it fires in. -/
theorem cronRuns_spec {cs : List ℤ} (hcs : ∀ c ∈ cs, 0 ≤ c) {I : Set ℤ} {ps : List Partition}
    (h : PartitionsOf I ps)
    (hok : ∀ e ∈ (Prog.run lockServed (cronRuns cs) ps).log, PartitionEvent.Succeeded e) :
    PartitionsOf {i | i ∈ I ∨ ∃ c ∈ cs, i = monthIndex c + 1}
      (Prog.run lockServed (cronRuns cs) ps).world := by
  induction cs generalizing I ps with
  | nil =>
    have hI : {i | i ∈ I ∨ ∃ c ∈ ([] : List ℤ), i = monthIndex c + 1} = I := by simp
    rw [hI]
    exact h
  | cons c cs ih =>
    have hc := hcs c List.mem_cons_self
    have hnext : ∀ u ∈ firstOfMonth (some c) 1, 0 ≤ u ∧ monthIndex u = monthIndex c + 1 := by
      intro u hu
      rw [firstOfMonth_eq hc] at hu
      rcases timeClip_cases (monthStart (monthIndex c + 1)) with hclip | hclip
      · rw [hclip] at hu
        obtain rfl := Option.some.inj hu
        exact ⟨monthStart_nonneg hc (by omega), monthIndex_monthStart _⟩
      · rw [hclip] at hu
        cases hu
    have hrun : cronRuns (c :: cs) =
        (createNextMonthPartition (some c)).run >>= fun _ => cronRuns cs := rfl
    rw [hrun, Prog.run_bind] at hok ⊢
    -- the firing at `c`, and then the others
    obtain ⟨u, hu, hfirst⟩ := ensurePartitionForMonth_spec (fun u hu => (hnext u hu).1) h
      fun e he => hok e (List.mem_append_left _ he)
    have hothers := ih (fun c' hc' => hcs c' (List.mem_cons_of_mem _ hc')) hfirst
      fun e he => hok e (List.mem_append_right _ he)
    have hI : {i | i ∈ I ∨ ∃ c' ∈ c :: cs, i = monthIndex c' + 1} =
        {i | i ∈ insert (monthIndex u) I ∨ ∃ c' ∈ cs, i = monthIndex c' + 1} := by
      ext i
      simp only [(hnext u hu).2, Set.mem_ofPred_eq, Set.mem_insert_iff, List.mem_cons,
        exists_eq_or_imp]
      tauto
    rw [hI]
    exact hothers

/-- Where every statement succeeds, a time is in the partition of its month, and there is one unless
its month follows the one that the service started in. -/
theorem access_log_partitioned (s t : ℕ) (hst : s ≤ t)
    (hok : ∀ e ∈ (Prog.run lockServed (serviceRuns s t) []).log, PartitionEvent.Succeeded e) :
    (∃ p ∈ (Prog.run lockServed (serviceRuns s t) []).world, p.lower ≤ t ∧ t < p.upper) ↔
      monthIndex t ≠ monthIndex s + 1 := by
  have hrun : serviceRuns s t =
      (onApplicationBootstrap (some (s : ℤ))).run >>= fun _ => cronRuns (cronTimes s t) := rfl
  have hempty : PartitionsOf ∅ [] := ⟨fun i hi => hi.elim, fun p => by simp⟩
  have hstart : ∀ u ∈ some (s : ℤ), 0 ≤ u := by
    intro u hu
    rw [← Option.some.inj hu]
    exact Int.natCast_nonneg s
  obtain ⟨hworld, hlog⟩ := run_onApplicationBootstrap (some (s : ℤ)) []
  rw [hrun, Prog.run_bind] at hok ⊢
  dsimp only at hok ⊢
  rw [hworld, hlog] at hok
  rw [hworld]
  obtain ⟨u, hu, hboot⟩ := ensurePartitionForMonth_spec hstart hempty
    fun e he => hok e (List.mem_append_left _ he)
  obtain rfl := Option.some.inj hu
  have hcron := cronRuns_spec (fun c hc => by have := (mem_cronTimes.mp hc).1; omega) hboot
    fun e he => hok e (List.mem_append_right _ he)
  have hmono : monthIndex s ≤ monthIndex t := monthIndex_mono (by exact_mod_cast hst)
  constructor
  · rintro ⟨p, hp, hlow, hhigh⟩
    obtain ⟨i, hi, rfl⟩ := (hcron.mem_iff p).mp hp
    have hindex : monthIndex t = i := monthIndex_eq_iff.mpr ⟨hlow, hhigh⟩
    rcases hi with hi | ⟨c, hc, rfl⟩
    · -- the month of the start
      obtain rfl : i = monthIndex s := by simpa using hi
      omega
    · -- the month after a firing, which is after that of the start
      obtain ⟨hsc, -, j, rfl⟩ := mem_cronTimes.mp hc
      have hj : monthIndex s < j := monthIndex_lt_iff.mpr hsc
      rw [hindex, monthIndex_monthStart]
      omega
  · intro hne
    obtain ⟨hlow, hhigh⟩ := monthIndex_spec t
    refine ⟨partitionOf (monthIndex t), (hcron.mem_iff _).mpr ⟨_, ?_, rfl⟩, hlow, hhigh⟩
    by_cases hsame : monthIndex t = monthIndex s
    · exact Or.inl (by simp [hsame])
    · -- the cron has fired on the first of the month before
      refine Or.inr ⟨monthStart (monthIndex t - 1), ?_, by rw [monthIndex_monthStart]; omega⟩
      rw [mem_cronTimes, ← monthIndex_lt_iff, ← le_monthIndex_iff]
      exact ⟨by omega, by omega, _, rfl⟩

/-- A service that starts on 26 May 2026 and is up on 1 September. -/
theorem access_log_partitioned_in_september :
    (∃ p ∈ (Prog.run lockServed (serviceRuns (1779789600000 : ℕ) (1788220800000 : ℕ)) []).world,
      p.lower ≤ (1788220800000 : ℕ) ∧ ((1788220800000 : ℕ) : ℤ) < p.upper) ↔
    monthIndex (1788220800000 : ℕ) ≠ monthIndex (1779789600000 : ℕ) + 1 :=
  access_log_partitioned 1779789600000 1788220800000 (by decide) (by decide +kernel)

/-- Started in May, the service has no partition for June. -/
theorem first_june_unpartitioned :
    ¬ ∀ s t : ℕ, s ≤ t →
      (∀ e ∈ (Prog.run lockServed (serviceRuns s t) []).log, PartitionEvent.Succeeded e) →
      ∃ p ∈ (Prog.run lockServed (serviceRuns s t) []).world, p.lower ≤ t ∧ t < p.upper := by
  intro h
  have hjune := h 1779789600000 1780358400000 (by decide) (by decide +kernel)
  exact absurd hjune (by decide +kernel)

end WhisprMedia
