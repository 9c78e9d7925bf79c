import WhisprMedia.WindowLimits

/-! The rate limit of `POST /upload`: the throttlers of the module, and the entry of the route, for
the requests of one client. -/
namespace WhisprMedia
open WindowLimits

abbrev ThrottlerOptions := Tier String

def SHORT_THROTTLER : ThrottlerOptions := ⟨"short", 1000, 3⟩
def MEDIUM_THROTTLER : ThrottlerOptions := ⟨"medium", 10000, 20⟩
def LONG_THROTTLER : ThrottlerOptions := ⟨"long", 60000, 100⟩

def throttlers : List ThrottlerOptions := [SHORT_THROTTLER, MEDIUM_THROTTLER, LONG_THROTTLER]

/-- `@Throttle({ default: { ttl: 60_000, limit: 20 } })` -/
def uploadThrottle : List ThrottlerOptions := [⟨"default", 60000, 20⟩]

/-- What the guard applies on a route: each throttler of the module, or the entry of the route that
has its name. -/
def routeThrottlers (throttlers entries : List ThrottlerOptions) : List ThrottlerOptions :=
  throttlers.map fun t => (entries.find? fun e => e.name = t.name).getD t

/-- In no window of 60 seconds more than 20 uploads are let through. -/
def UploadsCapped (W : Windows) (times : List ℕ) : Prop :=
  ∀ w, admittedIn LONG_THROTTLER.name w
    (run W (routeThrottlers throttlers uploadThrottle) times).answers ≤ 20

section Route
variable {ts entries : List ThrottlerOptions}

theorem map_name_routeThrottlers :
    (routeThrottlers ts entries).map Tier.name = ts.map Tier.name := by
  unfold routeThrottlers
  rw [List.map_map]
  apply List.map_congr_left
  intro t _
  show ((entries.find? fun e => e.name = t.name).getD t).name = t.name
  cases h : entries.find? fun e => e.name = t.name with
  | none => rfl
  | some e =>
    have hname := List.find?_some h
    exact of_decide_eq_true hname

/-- Entries under names that the module does not configure change nothing. -/
theorem routeThrottlers_of_unknown (h : ∀ e ∈ entries, e.name ∉ ts.map Tier.name) :
    routeThrottlers ts entries = ts := by
  unfold routeThrottlers
  have hid : ∀ t ∈ ts, (entries.find? fun e => e.name = t.name).getD t = t := by
    intro t ht
    have hnone : (entries.find? fun e => e.name = t.name) = none := by
      apply List.find?_eq_none.mpr
      intro e he hname
      apply h e he
      rw [of_decide_eq_true hname]
      exact List.mem_map_of_mem ht
    rw [hnone]
    rfl
  rw [List.map_congr_left hid, List.map_id']

/-- An entry under the name of a throttler caps the route. -/
theorem admittedIn_entry_le {W : Windows} (hn : (ts.map Tier.name).Nodup) {t e : ThrottlerOptions}
    (ht : t ∈ ts) (he : (entries.find? fun e => e.name = t.name) = some e) (times : List ℕ) (w : ℕ) :
    admittedIn t.name w (run W (routeThrottlers ts entries) times).answers ≤ e.limit := by
  have hmem : e ∈ routeThrottlers ts entries := by
    refine List.mem_map.mpr ⟨t, ht, ?_⟩
    rw [he]
    rfl
  have hfound := List.find?_some he
  have hname : e.name = t.name := of_decide_eq_true hfound
  rw [← hname]
  exact admittedIn_le hmem (by rw [map_name_routeThrottlers]; exact hn) times w

end Route

/-- The entry of the upload route names no throttler of the module. -/
theorem uploadThrottlers_eq : routeThrottlers throttlers uploadThrottle = throttlers :=
  routeThrottlers_of_unknown (by decide)

theorem throttlers_nodup : (throttlers.map Tier.name).Nodup := by decide

/-- Uploads are let through up to the limit of each throttler of the module. -/
theorem uploads_within_throttlers (W : Windows) (times : List ℕ) {t : ThrottlerOptions}
    (ht : t ∈ throttlers) (w : ℕ) :
    admittedIn t.name w (run W (routeThrottlers throttlers uploadThrottle) times).answers ≤
      t.limit := by
  rw [uploadThrottlers_eq]
  exact admittedIn_le ht throttlers_nodup times w

/-- The uploads are capped for exactly those sequences of requests of which the short and the medium
throttler let through at most 20 in each window of 60 seconds. -/
theorem uploads_capped_iff (W : Windows) (times : List ℕ) : UploadsCapped W times ↔
    ∀ w, countIn w (W.hits LONG_THROTTLER.ttl
      (letThrough W [SHORT_THROTTLER, MEDIUM_THROTTLER] times)) ≤ 20 := by
  have hlast := @admittedIn_last String _ W LONG_THROTTLER [SHORT_THROTTLER, MEDIUM_THROTTLER]
    (by decide) times
  have htiers : routeThrottlers throttlers uploadThrottle =
      [SHORT_THROTTLER, MEDIUM_THROTTLER] ++ [LONG_THROTTLER] := uploadThrottlers_eq
  unfold UploadsCapped
  rw [htiers]
  have hmin (n : ℕ) : min LONG_THROTTLER.limit n ≤ 20 ↔ n ≤ 20 := by
    show min 100 n ≤ 20 ↔ n ≤ 20
    omega
  constructor
  · intro h w
    have hw := h w
    rwa [hlast, hmin] at hw
  · intro h w
    rw [hlast, hmin]
    exact h w

/-- It is enough that no more than 20 requests come in 60 seconds. -/
theorem uploadsCapped_of_few {W : Windows} {times : List ℕ}
    (h : ∀ w, (times.countP fun now => w ≤ now ∧ now < w + 60000) ≤ 20) :
    UploadsCapped W times := by
  rw [uploads_capped_iff]
  intro w
  calc countIn w (W.hits LONG_THROTTLER.ttl
        (letThrough W [SHORT_THROTTLER, MEDIUM_THROTTLER] times))
      ≤ (letThrough W [SHORT_THROTTLER, MEDIUM_THROTTLER] times).countP
          fun now => w ≤ now ∧ now < w + LONG_THROTTLER.ttl := countIn_hits_le (by decide) _ w
    _ ≤ times.countP fun now => w ≤ now ∧ now < w + 60000 :=
        (letThrough_sublist _ times).countP_le
    _ ≤ 20 := h w

/-- An upload every two seconds. -/
def everyTwoSeconds : List ℕ := (List.range 21).map fun k => 2000 * k

/-- All of 21 uploads in 40 seconds are let through. -/
theorem uploads_not_capped : ¬ ∀ (W : Windows) (times : List ℕ), UploadsCapped W times := by
  intro h
  have hcap := h fixedWindows everyTwoSeconds 0
  have hall : admittedIn LONG_THROTTLER.name 0 (run fixedWindows
      (routeThrottlers throttlers uploadThrottle) everyTwoSeconds).answers = 21 := by
    decide +kernel
  omega

end WhisprMedia
