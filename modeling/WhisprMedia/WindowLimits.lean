import Mathlib.Data.List.Induction
import Mathlib.Data.Nat.Notation
import Mathlib.Logic.Function.Basic

/-! Rate limits by windows of time. A tier counts the requests it is asked about and lets through up
to its limit of them in each window; a guard asks several tiers in turn and stops at the first that
refuses. How windows are cut is left open. -/
namespace WindowLimits

variable {N : Type}

structure Tier (N : Type) where
  name : N
  ttl : ℕ
  limit : ℕ
  deriving DecidableEq

/-- A request that a tier has counted, and the start of the window it fell into. -/
structure Hit where
  time : ℕ
  window : ℕ
  deriving DecidableEq

/-- How a tier cuts time into windows, given the requests it has counted before, latest first. -/
structure Windows where
  start : ℕ → List Hit → ℕ → ℕ
  start_le : ∀ ttl hits now, start ttl hits now ≤ now
  lt_end : ∀ ttl hits now, 0 < ttl → now < start ttl hits now + ttl

/-- A window begins with the first request after the end of the one before. -/
def fixedWindows : Windows where
  start ttl hits now :=
    match hits with
    | [] => now
    | hit :: _ => if hit.window ≤ now ∧ now < hit.window + ttl then hit.window else now
  start_le ttl hits now := by
    split
    · exact Nat.le_refl now
    · split
      · next h => exact h.1
      · exact Nat.le_refl now
  lt_end ttl hits now h := by
    split
    · omega
    · split
      · next h => exact h.2
      · omega

/-- The requests of a window. -/
def countIn (w : ℕ) (hits : List Hit) : ℕ := hits.countP fun hit => hit.window = w

namespace Windows
variable (W : Windows)

/-- One more request is counted. -/
def hit (ttl : ℕ) (hits : List Hit) (now : ℕ) : List Hit := ⟨now, W.start ttl hits now⟩ :: hits

/-- What a tier has counted when it was asked at these times. -/
def hits (ttl : ℕ) (times : List ℕ) : List Hit := times.foldl (W.hit ttl) []

theorem hits_concat (ttl : ℕ) (times : List ℕ) (now : ℕ) :
    W.hits ttl (times ++ [now]) = W.hit ttl (W.hits ttl times) now := by
  simp only [hits, List.foldl_append, List.foldl_cons, List.foldl_nil]

theorem countIn_hit (ttl : ℕ) (hits : List Hit) (now w : ℕ) :
    countIn w (W.hit ttl hits now) =
      countIn w hits + if W.start ttl hits now = w then 1 else 0 := by
  simp only [countIn, hit, List.countP_cons, decide_eq_true_eq]

end Windows

variable [DecidableEq N] (W : Windows)

/-- What each tier has counted. -/
abbrev Counts (N : Type) := N → List Hit

/-- A tier counts the request, and lets it through while its window has room. -/
def ask (t : Tier N) (s : Counts N) (now : ℕ) : Bool × Counts N :=
  (countIn (W.start t.ttl (s t.name) now) (s t.name) < t.limit,
    Function.update s t.name (W.hit t.ttl (s t.name) now))

def guard : List (Tier N) → Counts N → ℕ → Bool × Counts N
  | [], s, _ => (true, s)
  | t :: ts, s, now =>
    match ask W t s now with
    | (true, s') => guard ts s' now
    | (false, s') => (false, s')

/-- What came of a request, and the windows it fell into. -/
structure Answer (N : Type) where
  time : ℕ
  admitted : Bool
  window : N → Option ℕ

structure Served (N : Type) where
  counts : Counts N
  answers : List (Answer N)

def serve (ts : List (Tier N)) (r : Served N) (now : ℕ) : Served N :=
  let answer := guard W ts r.counts now
  ⟨answer.2, r.answers ++ [⟨now, answer.1, fun n => (answer.2 n).head?.map Hit.window⟩]⟩

/-- The guard over requests at these times. -/
def run (ts : List (Tier N)) (times : List ℕ) : Served N := times.foldl (serve W ts) ⟨fun _ => [], []⟩

/-- The requests that were let through in a window of a tier. -/
def admittedIn (n : N) (w : ℕ) (answers : List (Answer N)) : ℕ :=
  answers.countP fun a => a.admitted && a.window n = some w

/-- When the requests came that the guard has let through. -/
def letThrough (ts : List (Tier N)) (times : List ℕ) : List ℕ :=
  ((run W ts times).answers.filter Answer.admitted).map Answer.time

/-! One request -/

section Step
variable {W} {t : Tier N} {ts : List (Tier N)} {s s' : Counts N} {now : ℕ} {n : N} {b : Bool}

theorem run_concat (ts : List (Tier N)) (times : List ℕ) (now : ℕ) :
    run W ts (times ++ [now]) = serve W ts (run W ts times) now := by
  simp only [run, List.foldl_append, List.foldl_cons, List.foldl_nil]

theorem guard_append (ts : List (Tier N)) (t : Tier N) (s : Counts N) (now : ℕ) :
    guard W (ts ++ [t]) s now =
      match guard W ts s now with
      | (true, s') => ask W t s' now
      | (false, s') => (false, s') := by
  induction ts generalizing s with
  | nil =>
    simp only [List.nil_append, guard]
    split <;> next h => rw [h]
  | cons u ts ih =>
    simp only [List.cons_append, guard]
    cases ask W u s now with
    | mk b s' =>
      cases b with
      | true => exact ih s'
      | false => rfl

/-- A guard minds its own tiers only. -/
theorem guard_other (h : n ∉ ts.map Tier.name) : (guard W ts s now).2 n = s n := by
  induction ts generalizing s with
  | nil => rfl
  | cons u ts ih =>
    rw [List.map_cons, List.mem_cons, not_or] at h
    have hask : (ask W u s now).2 n = s n := Function.update_of_ne h.1 _ _
    rw [guard]
    split
    · next s' he =>
      rw [ih h.2, ← hask, he]
    · next s' he =>
      rw [← hask, he]

theorem guard_congr (h : ∀ n ∈ ts.map Tier.name, s n = s' n) :
    (guard W ts s now).1 = (guard W ts s' now).1 ∧
      ∀ n ∈ ts.map Tier.name, (guard W ts s now).2 n = (guard W ts s' now).2 n := by
  induction ts generalizing s s' with
  | nil => exact ⟨rfl, fun n hn => absurd hn List.not_mem_nil⟩
  | cons u ts ih =>
    have hu : s u.name = s' u.name := h u.name List.mem_cons_self
    have hb : (ask W u s now).1 = (ask W u s' now).1 := by simp only [ask, hu]
    have hs (n : N) (hn : n ∈ (u :: ts).map Tier.name) :
        (ask W u s now).2 n = (ask W u s' now).2 n := by
      simp only [ask, hu]
      by_cases hnu : n = u.name
      · rw [hnu, Function.update_self, Function.update_self]
      · rw [Function.update_of_ne hnu, Function.update_of_ne hnu, h n hn]
    rw [guard, guard]
    cases he : ask W u s now with
    | mk b v =>
      cases he' : ask W u s' now with
      | mk b' v' =>
        rw [he, he'] at hb hs
        obtain rfl : b = b' := hb
        cases b with
        -- a refusal ends the guard, and the later tiers keep their counts
        | false => exact ⟨rfl, hs⟩
        | true =>
          obtain ⟨hb, hrest⟩ := @ih v v' fun n hn => hs n (List.mem_cons_of_mem _ hn)
          refine ⟨hb, fun n hn => ?_⟩
          by_cases hts : n ∈ ts.map Tier.name
          · exact hrest n hts
          · show (guard W ts v now).2 n = (guard W ts v' now).2 n
            rw [guard_other hts, guard_other hts]
            exact hs n hn

/-- What one of the tiers counts, and that a request which is let through has found room. -/
theorem guard_asks (ht : t ∈ ts) (hn : (ts.map Tier.name).Nodup) (h : guard W ts s now = (b, s')) :
    (s' t.name = s t.name ∧ b = false) ∨
      (s' t.name = W.hit t.ttl (s t.name) now ∧
        (b = true → countIn (W.start t.ttl (s t.name) now) (s t.name) < t.limit)) := by
  induction ts generalizing s with
  | nil => exact absurd ht List.not_mem_nil
  | cons u ts ih =>
    rw [List.map_cons, List.nodup_cons] at hn
    rw [guard] at h
    have hask : (ask W u s now).1 = true →
        countIn (W.start u.ttl (s u.name) now) (s u.name) < u.limit := of_decide_eq_true
    have hupd : (ask W u s now).2 = Function.update s u.name (W.hit u.ttl (s u.name) now) := rfl
    cases he : ask W u s now with
    | mk b₁ s₁ =>
      rw [he] at h hask hupd
      obtain rfl : s₁ = _ := hupd
      rcases List.mem_cons.mp ht with rfl | ht'
      · -- the first tier is not asked again
        right
        have hlater := @guard_other N _ W ts (Function.update s t.name (W.hit t.ttl (s t.name) now))
          now t.name hn.1
        rw [Function.update_self] at hlater
        cases b₁ with
        | true =>
          have h : guard W ts _ now = (b, s') := h
          rw [h] at hlater
          exact ⟨hlater, fun _ => hask rfl⟩
        | false =>
          obtain ⟨rfl, rfl⟩ := Prod.mk.inj h
          exact ⟨Function.update_self _ _ _, fun hb => absurd hb (by decide)⟩
      · have hne : t.name ≠ u.name := by
          intro heq
          exact hn.1 (heq ▸ List.mem_map_of_mem ht')
        cases b₁ with
        | true =>
          have hrest := ih ht' hn.2 h
          rwa [Function.update_of_ne hne] at hrest
        | false =>
          obtain ⟨rfl, rfl⟩ := Prod.mk.inj h
          exact Or.inl ⟨Function.update_of_ne hne _ _, rfl⟩

end Step

/-! Runs -/

section Runs
variable {W} {t : Tier N} {ts : List (Tier N)}

omit [DecidableEq N] in
theorem admittedIn_refused {n : N} {w : ℕ} {answers : List (Answer N)} {a : Answer N}
    (h : a.admitted = false) : admittedIn n w (answers ++ [a]) = admittedIn n w answers := by
  simp [admittedIn, List.countP_append, h]

omit [DecidableEq N] in
theorem admittedIn_asked {n : N} {w v : ℕ} {answers : List (Answer N)} {a : Answer N}
    (h : a.window n = some v) : admittedIn n w (answers ++ [a]) =
      admittedIn n w answers + if a.admitted = true ∧ v = w then 1 else 0 := by
  simp [admittedIn, List.countP_append, List.countP_cons, h]

/-- A guard lets through at most what each of its tiers allows in a window. -/
theorem admittedIn_le (ht : t ∈ ts) (hn : (ts.map Tier.name).Nodup) (times : List ℕ) (w : ℕ) :
    admittedIn t.name w (run W ts times).answers ≤ t.limit := by
  -- stronger: of what was let through in a window, the tier has counted all
  suffices h : admittedIn t.name w (run W ts times).answers ≤ t.limit ∧
      admittedIn t.name w (run W ts times).answers ≤ countIn w ((run W ts times).counts t.name) from
    h.1
  induction times using List.reverseRecOn with
  | nil => exact ⟨Nat.zero_le _, Nat.zero_le _⟩
  | append_singleton times now ih =>
    obtain ⟨hlimit, hcount⟩ := ih
    rw [run_concat]
    cases he : guard W ts (run W ts times).counts now with
    | mk b s' =>
      simp only [serve, he]
      rcases guard_asks ht hn he with ⟨hs, rfl⟩ | ⟨hs, hroom⟩
      · -- a tier before this one has refused
        rw [admittedIn_refused rfl, hs]
        exact ⟨hlimit, hcount⟩
      · -- the tier has counted the request, and let it through only if its window had room
        have hwindow : (s' t.name).head?.map Hit.window =
            some (W.start t.ttl ((run W ts times).counts t.name) now) := by
          rw [hs]
          rfl
        rw [admittedIn_asked hwindow, hs, W.countIn_hit]
        by_cases hw : W.start t.ttl ((run W ts times).counts t.name) now = w
        · rw [hw] at hroom
          by_cases hb : b = true
          · have hlt := hroom hb
            rw [if_pos ⟨hb, hw⟩, if_pos hw]
            omega
          · rw [if_neg fun h => hb h.1]
            omega
        · rw [if_neg fun h => hw h.2, if_neg hw]
          omega

/-- The last of several tiers counts what the others let through. -/
theorem counts_last (hn : t.name ∉ ts.map Tier.name) (times : List ℕ) :
    (∀ n ∈ ts.map Tier.name, (run W (ts ++ [t]) times).counts n = (run W ts times).counts n) ∧
      (run W (ts ++ [t]) times).counts t.name = W.hits t.ttl (letThrough W ts times) := by
  induction times using List.reverseRecOn with
  | nil => exact ⟨fun _ _ => rfl, rfl⟩
  | append_singleton times now ih =>
    obtain ⟨hothers, hlast⟩ := ih
    -- the others cannot see the last tier, so they answer as they do alone
    obtain ⟨hb, hs⟩ := @guard_congr N _ W ts _ _ now hothers
    have hkept := @guard_other N _ W ts (run W (ts ++ [t]) times).counts now t.name hn
    have hthrough : letThrough W ts (times ++ [now]) = letThrough W ts times ++
        if (guard W ts (run W ts times).counts now).1 then [now] else [] := by
      simp only [letThrough, run_concat, serve, List.filter_append, List.map_append]
      cases (guard W ts (run W ts times).counts now).1 <;> rfl
    rw [run_concat, run_concat, hthrough]
    simp only [serve, guard_append]
    cases he : guard W ts (run W (ts ++ [t]) times).counts now with
    | mk b s' =>
      rw [he] at hb hs hkept
      rw [← hb]
      cases b with
      | false =>
        refine ⟨hs, ?_⟩
        show s' t.name = W.hits t.ttl (letThrough W ts times ++ [])
        rw [List.append_nil, ← hlast]
        exact hkept
      | true =>
        refine ⟨fun n hmem => ?_, ?_⟩
        · have hne : n ≠ t.name := fun heq => hn (heq ▸ hmem)
          exact (Function.update_of_ne hne _ _).trans (hs n hmem)
        · show Function.update s' t.name (W.hit t.ttl (s' t.name) now) t.name =
            W.hits t.ttl (letThrough W ts times ++ [now])
          have hkept : s' t.name = _ := hkept
          rw [Function.update_self, W.hits_concat, hkept, hlast]

/-- In each window of its last tier, a guard lets through what comes to the tier, up to the limit. -/
theorem admittedIn_last (hn : t.name ∉ ts.map Tier.name) (times : List ℕ) (w : ℕ) :
    admittedIn t.name w (run W (ts ++ [t]) times).answers =
      min t.limit (countIn w (W.hits t.ttl (letThrough W ts times))) := by
  rw [← (counts_last hn times).2]
  induction times using List.reverseRecOn with
  | nil => exact (Nat.min_zero _).symm
  | append_singleton times now ih =>
    rw [run_concat]
    have hkept := @guard_other N _ W ts (run W (ts ++ [t]) times).counts now t.name hn
    simp only [serve, guard_append]
    cases he : guard W ts (run W (ts ++ [t]) times).counts now with
    | mk b s' =>
      rw [he] at hkept
      have hsame : s' t.name = (run W (ts ++ [t]) times).counts t.name := hkept
      cases b with
      | false =>
        dsimp only
        rw [admittedIn_refused rfl, hsame]
        exact ih
      | true =>
        -- the request has come to the last tier, which lets it through below its limit
        dsimp only
        have hcounts : (ask W t s' now).2 t.name = W.hit t.ttl (s' t.name) now :=
          Function.update_self _ _ _
        have hwindow : ((ask W t s' now).2 t.name).head?.map Hit.window =
            some (W.start t.ttl (s' t.name) now) := by
          rw [hcounts]
          rfl
        have hroom : (ask W t s' now).1 = true ↔
            countIn (W.start t.ttl (s' t.name) now) (s' t.name) < t.limit := decide_eq_true_iff
        rw [admittedIn_asked hwindow, hcounts, W.countIn_hit, ih]
        rw [hsame] at hroom ⊢
        by_cases hw : W.start t.ttl ((run W (ts ++ [t]) times).counts t.name) now = w
        · rw [hw] at hroom ⊢
          by_cases hb : (ask W t s' now).1 = true
          · have hlt := hroom.mp hb
            rw [if_pos ⟨hb, rfl⟩, if_pos rfl]
            omega
          · have hge := mt hroom.mpr hb
            rw [if_neg fun h => hb h.1, if_pos rfl]
            omega
        · rw [if_neg fun h => hw h.2, if_neg hw]
          rfl

/-- A window of a tier holds at most the requests that come in that time. -/
theorem countIn_hits_le {ttl : ℕ} (h : 0 < ttl) (times : List ℕ) (w : ℕ) :
    countIn w (W.hits ttl times) ≤ times.countP fun now => w ≤ now ∧ now < w + ttl := by
  induction times using List.reverseRecOn with
  | nil => exact Nat.le_refl 0
  | append_singleton times now ih =>
    rw [W.hits_concat, W.countIn_hit, List.countP_append, List.countP_singleton]
    by_cases hw : W.start ttl (W.hits ttl times) now = w
    · have hlow := W.start_le ttl (W.hits ttl times) now
      have hhigh := W.lt_end ttl (W.hits ttl times) now h
      rw [hw] at hlow hhigh
      rw [if_pos hw, if_pos (decide_eq_true ⟨hlow, hhigh⟩)]
      omega
    · rw [if_neg hw]
      omega

/-- What is let through has come. -/
theorem letThrough_sublist (ts : List (Tier N)) (times : List ℕ) :
    (letThrough W ts times).Sublist times := by
  have htimes : (run W ts times).answers.map Answer.time = times := by
    induction times using List.reverseRecOn with
    | nil => rfl
    | append_singleton times now ih =>
      rw [run_concat]
      simp only [serve, List.map_append, List.map_cons, List.map_nil, ih]
  have hsub := (List.filter_sublist (l := (run W ts times).answers) (p := Answer.admitted)).map
    Answer.time
  rwa [htimes] at hsub

end Runs

end WindowLimits
