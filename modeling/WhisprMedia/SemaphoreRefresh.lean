import WhisprMedia.SemaphoreHealing
import WhisprMedia.MediaController
import Mathlib.Tactic.Linarith
import Mathlib.Tactic.Positivity

/-! The key of the semaphore while an upload runs. A timer of the upload sets the key's time anew
every five minutes; any command may fail, and so may the refreshes, though never five in a row. -/
namespace WhisprMedia
open Awaiting MediaService

def SEMAPHORE_TTL_REFRESH_INTERVAL_MS : ℕ := 5 * 60 * 1000

namespace MediaService

/-- The callback of the timer in `runWithSemaphoreTtlRefresh`. -/
def refresh (userId : String) : Svc Unit :=
  tryCatch (await (.expire (semaphoreKey userId) SEMAPHORE_TTL_SECONDS)) fun _ => pure ()

end MediaService

/-- The service for a step whose command has this fault. -/
def faultyService (env : Env) (fault : Option Fault) :
    System Cmd Cmd.Reply World Call Act (Except Err Reply) where
  exec := env.execFaulty fun _ _ => fault
  body := (service env).body
  forks := (service env).forks
  act := (service env).act

/-- Thread `i` has acquired the semaphore and has not given it back. -/
def holdsInside (userId : String) (p : ServicePool) (i : ℕ) : Bool :=
  p.threads[i]?.any fun t => (phases userId).of t = .inside

/-- It has not come to `releaseSemaphore` either. -/
def uploading (userId : String) (p : ServicePool) (i : ℕ) : Bool :=
  holdsInside userId p i && (p.nextCmd i).any fun c => c ≠ .decr (semaphoreKey userId)

/-- The service beside the timer of the upload of one thread. -/
structure Watched where
  pool : ServicePool
  /-- When the timer was set, or has last fired. -/
  last : ℤ
  /-- The refreshes that have failed since one was served. -/
  failed : ℕ

inductive WatchedLabel where
  | pool (fault : Option Fault) (l : Label Call Act)
  | refresh (fault : Option Fault)

/-- A step of the service, or the timer fires. -/
def Watched.next (env : Env) (userId : String) (i : ℕ) (s : Watched) :
    WatchedLabel → Option Watched
  | .pool fault l =>
    ((faultyService env fault).next s.pool l).map fun q =>
      if holdsInside userId s.pool i then { s with pool := q } else ⟨q, q.world.now, 0⟩
  | .refresh fault =>
    if uploading userId s.pool i ∧ s.last + SEMAPHORE_TTL_REFRESH_INTERVAL_MS ≤ s.pool.world.now then
      some {
        pool := { s.pool with
          world := (Prog.run (env.execFaulty fun _ _ => fault) (refresh userId).run
            s.pool.world).world }
        last := s.pool.world.now
        failed := if fault.isSome then s.failed + 1 else 0 }
    else none

/-- The timer is late by `lag` at most, and has not failed five times in a row. -/
def Watched.Live (userId : String) (i : ℕ) (lag : ℕ) (s : Watched) : Prop :=
  uploading userId s.pool i = true →
    s.pool.world.now ≤ s.last + (SEMAPHORE_TTL_REFRESH_INTERVAL_MS + lag) ∧ s.failed < 5

instance (userId : String) (i lag : ℕ) (s : Watched) : Decidable (s.Live userId i lag) :=
  inferInstanceAs (Decidable (_ → _))

/-- A run in a live process. -/
inductive LiveRuns (env : Env) (userId : String) (i lag : ℕ) (s₀ : Watched) : Watched → Prop
  | refl : LiveRuns env userId i lag s₀ s₀
  | tail {s s' l} : LiveRuns env userId i lag s₀ s → s.next env userId i l = some s' →
      s'.Live userId i lag → LiveRuns env userId i lag s₀ s'

/-- Take the steps of a schedule as long as the process is live. -/
def playLive (env : Env) (userId : String) (i lag : ℕ) (s : Watched) :
    List WatchedLabel → Option Watched
  | [] => some s
  | l :: ls => ((s.next env userId i l).filter fun s' => s'.Live userId i lag).bind fun s' =>
      playLive env userId i lag s' ls

theorem liveRuns_of_play {env : Env} {userId : String} {i lag : ℕ} {s₀ s s' : Watched}
    (h₀ : LiveRuns env userId i lag s₀ s) {ls : List WatchedLabel}
    (h : playLive env userId i lag s ls = some s') : LiveRuns env userId i lag s₀ s' := by
  induction ls generalizing s with
  | nil => exact Option.some.inj h ▸ h₀
  | cons l ls ih =>
    obtain ⟨s₁, hs₁, hrest⟩ := Option.bind_eq_some_iff.mp h
    obtain ⟨hnext, hlive⟩ := Option.filter_eq_some_iff.mp hs₁
    exact ih (h₀.tail hnext (of_decide_eq_true hlive)) hrest

/-! The time of the key -/

/-- A key that is given a time is given the whole of it. -/
def LongExpiry (c : Cmd) : Prop := ∀ key seconds, c = .expire key seconds → seconds = SEMAPHORE_TTL_SECONDS

/-- When the user's key is dropped, if it has a time. -/
def keyDeadline (w : World) (userId : String) : Option ℤ :=
  (w.semaphores (semaphoreKey userId)).bind Counter.deadline

/-- The whole time of a key in milliseconds. -/
def ttlMs : ℤ := SEMAPHORE_TTL_SECONDS * 1000

section Commands
variable {env : Env} {userId : String} {w : World} {c : Cmd} {d : ℤ}

theorem keyDeadline_expire (h : keyDeadline (env.exec
      (.expire (semaphoreKey userId) SEMAPHORE_TTL_SECONDS) w).2 userId = some d) :
    d = w.now + ttlMs := by
  simp only [keyDeadline, Env.exec, Function.update_self] at h
  cases hkey : w.semaphores (semaphoreKey userId) with
  | none => simp [hkey] at h
  | some n => simpa [hkey, ttlMs, eq_comm] using h

/-- After a command the key has the time it had before, or it has just been given its time. -/
theorem keyDeadline_exec (hc : LongExpiry c) (h : keyDeadline (env.exec c w).2 userId = some d) :
    keyDeadline w userId = some d ∨ d = w.now + ttlMs := by
  by_cases hkey : c.semaphore? = some (semaphoreKey userId)
  · cases c with
    | incr key | decr key =>
      obtain rfl := Option.some.inj hkey
      left
      -- a key that is created has no time
      simp only [keyDeadline, Env.exec, Function.update_self, Option.bind_some] at h ⊢
      cases hn : w.semaphores (semaphoreKey userId) with
      | none => simp [hn] at h
      | some n => simpa [hn] using h
    | del key =>
      obtain rfl := Option.some.inj hkey
      simp [keyDeadline, Env.exec] at h
    | expire key seconds =>
      obtain rfl := Option.some.inj hkey
      obtain rfl := hc _ _ rfl
      exact Or.inr (keyDeadline_expire h)
    | _ => simp [Cmd.semaphore?] at hkey
  · -- the key of another user, or no key of the semaphore
    left
    unfold keyDeadline at h ⊢
    rwa [semaphores_of_other hkey] at h

theorem keyDeadline_execFaulty {fault : Option Fault} (hc : LongExpiry c)
    (h : keyDeadline (env.execFaulty (fun _ _ => fault) c w).2 userId = some d) :
    keyDeadline w userId = some d ∨ d = w.now + ttlMs := by
  unfold Env.execFaulty at h
  split at h
  · exact keyDeadline_exec hc h
  · dsimp only at h
    split at h
    · exact keyDeadline_exec hc h
    · exact Or.inl h

theorem now_execFaulty (fault : Option Fault) :
    (env.execFaulty (fun _ _ => fault) c w).2.now = w.now := by
  unfold Env.execFaulty
  split
  · exact exec_now
  · dsimp only
    split
    · exact exec_now
    · rfl

/-- The timers of other uploads, the passing of time and the drop of a key. -/
theorem keyDeadline_act {a : Act} (h : keyDeadline (a.apply w) userId = some d) :
    keyDeadline w userId = some d ∨ d = w.now + ttlMs := by
  cases a with
  | expireSemaphore key =>
    left
    simp only [Act.apply] at h
    split at h
    · by_cases hk : semaphoreKey userId = key
      · subst hk
        simp [keyDeadline] at h
      · simpa [keyDeadline, Function.update_of_ne hk] using h
    · exact h
  | refreshSemaphoreTtl key =>
    by_cases hk : semaphoreKey userId = key
    · subst hk
      simp only [keyDeadline, Act.apply, Function.update_self] at h
      right
      cases hn : w.semaphores (semaphoreKey userId) with
      | none => simp [hn] at h
      | some n => simpa [hn, ttlMs, eq_comm] using h
    · left
      simpa [keyDeadline, Act.apply, Function.update_of_ne hk] using h
  | expireCooldown key =>
    left
    simp only [Act.apply] at h
    split at h <;> exact h
  | _ => exact Or.inl h

end Commands

/-! Bodies -/

theorem longExpiry_of_family {c : Cmd} (h : c.family ≠ .semaphore) : LongExpiry c := by
  rintro key seconds rfl
  exact absurd rfl h

/-- Keys of the semaphore are given their whole time. -/
theorem handle_longExpiry (env : Env) (x : Call) : (handle env x).Issues LongExpiry := by
  by_cases hx : ∃ ownerId file context thumbnailFile sharedWith,
      x = .upload ownerId file context thumbnailFile sharedWith
  · obtain ⟨ownerId, file, context, thumbnailFile, sharedWith, rfl⟩ := hx
    have hacquire : (acquireSemaphore ownerId).Issues LongExpiry := by
      refine ProgE.Issues.bind ⟨by simp [LongExpiry], fun _ => trivial⟩ fun count => ?_
      refine ProgE.Issues.bind ⟨?_, fun _ => trivial⟩ fun _ => ?_
      · rintro key seconds h
        injection h with _ hseconds
        exact hseconds.symm
      · split
        · exact ProgE.Issues.bind ⟨by simp [LongExpiry], fun _ => trivial⟩ fun _ =>
            ProgE.issues_throw _
        · exact ProgE.issues_pure ()
    have hrelease : (releaseSemaphore ownerId).Issues LongExpiry := by
      refine ProgE.Issues.bind ⟨by simp [LongExpiry], fun _ => trivial⟩ fun remaining => ?_
      split
      · exact ⟨by simp [LongExpiry], fun _ => trivial⟩
      · exact ProgE.issues_pure ()
    have hheld : (uploadHeld env ownerId file context thumbnailFile sharedWith).Issues
        LongExpiry := by
      refine (uploadHeld_touches env ownerId file context thumbnailFile sharedWith).issues.mono ?_
      intro c hc
      exact longExpiry_of_family fun h => by simp [h] at hc
    exact ProgE.Issues.map (ProgE.Issues.bind hacquire fun _ =>
      ProgE.Issues.ensuring hheld hrelease)
  · refine (handle_touches env x fun o f c t s h => hx ⟨o, f, c, t, s, h⟩).issues.mono ?_
    intro c hc
    exact longExpiry_of_family fun h => by simp [h] at hc

/-- All threads give keys their whole time. -/
def AllLong (p : ServicePool) : Prop := ∀ t ∈ p.threads, t.rest.Issues LongExpiry

section Steps
variable {env : Env} {userId : String} {p q : ServicePool} {l : Label Call Act}
  {fault : Option Fault} {i : ℕ} {d : ℤ}

theorem AllLong.next (hp : AllLong p) (h : (faultyService env fault).next p l = some q) :
    AllLong q := by
  intro t ht
  rcases System.next_cases h with ⟨x, -, rfl⟩ | ⟨a, -, rfl⟩ |
    ⟨j, pre, post, x, log, c, k, -, hts, -, rfl⟩
  · rcases List.mem_append.mp ht with ht | ht
    · exact hp t ht
    · obtain rfl := List.mem_singleton.mp ht
      exact handle_longExpiry env x
  · exact hp t ht
  · simp only [List.mem_append, List.mem_cons] at ht
    have hmoved : (Prog.step c k).Issues LongExpiry := hp ⟨x, log, .step c k⟩ (by simp [hts])
    rcases ht with (ht | rfl | ht) | ht
    · exact hp t (by simp [hts, ht])
    · exact hmoved.2 _
    · exact hp t (by simp [hts, ht])
    · obtain ⟨y, -, rfl⟩ := List.mem_map.mp ht
      exact handle_longExpiry env y

/-- After a step, the key has the time it had before or the whole of it. -/
theorem keyDeadline_next (hp : AllLong p) (h : (faultyService env fault).next p l = some q)
    (hd : keyDeadline q.world userId = some d) :
    keyDeadline p.world userId = some d ∨ d = p.world.now + ttlMs := by
  rcases System.next_cases h with ⟨x, -, rfl⟩ | ⟨a, -, rfl⟩ |
    ⟨j, pre, post, x, log, c, k, -, hts, -, rfl⟩
  · exact Or.inl hd
  · exact keyDeadline_act hd
  · have hmoved : (Prog.step c k).Issues LongExpiry := hp ⟨x, log, .step c k⟩ (by simp [hts])
    exact keyDeadline_execFaulty hmoved.1 hd

theorem now_le_next (h : (faultyService env fault).next p l = some q) :
    p.world.now ≤ q.world.now := by
  rcases System.next_cases h with ⟨x, -, rfl⟩ | ⟨a, -, rfl⟩ |
    ⟨j, pre, post, x, log, c, k, -, hts, -, rfl⟩
  · exact le_refl _
  · exact now_le_act a
  · exact (now_execFaulty fault).ge

/-- Only the EXPIRE of `acquireSemaphore` lets an upload in. -/
theorem phase_next_inside {g : Phase} {c : Cmd} {r : c.Reply}
    (h : Phase.next userId g c r = .inside) :
    g = .inside ∨ ∃ seconds, c = .expire (semaphoreKey userId) seconds ∧ ∃ v, r = .ok v := by
  unfold Phase.next at h
  split at h
  · split_ifs at h
    exact Or.inl h
  · next key seconds v =>
    split_ifs at h with hkey
    · exact Or.inr ⟨seconds, by rw [hkey.1], v, rfl⟩
    · exact Or.inl h
  · split_ifs at h
    exact Or.inl h
  · exact Or.inl h

theorem not_inside {t : ServiceThread} (hout : holdsInside userId p i = false)
    (ht : p.threads[i]? = some t) : (phases userId).of t ≠ .inside := by
  intro hstill
  have hheld : holdsInside userId p i = true :=
    (Option.any_eq_true _ _).mpr ⟨t, ht, decide_eq_true hstill⟩
  rw [hheld] at hout
  exact absurd hout (by decide)

/-- When an upload gets in, its key has the whole of its time. -/
theorem keyDeadline_entered (hp : AllLong p) (h : (faultyService env fault).next p l = some q)
    (hout : holdsInside userId p i = false) (hin : holdsInside userId q i = true)
    (hd : keyDeadline q.world userId = some d) : d = q.world.now + ttlMs := by
  obtain ⟨t', ht', hphase⟩ := (Option.any_eq_true _ _).mp hin
  have hphase : (phases userId).of t' = .inside := of_decide_eq_true hphase
  rcases System.next_thread h ht' with hnew | ⟨t, ht, hcall, hsame | ⟨c, k, rfl, hrest, hlog, hworld⟩⟩
  · -- a thread that has just started is outside
    have hstart : (phases userId).of t' = .outside := by
      rw [Account.of, hnew]
      rfl
    rw [hstart] at hphase
    exact absurd hphase (by decide)
  · have hstill : (phases userId).of t = .inside := by
      rw [← hphase, Account.of, Account.of, hsame, hcall]
    exact absurd hstill (not_inside hout ht)
  · have hstep : (phases userId).of t' = Phase.next userId ((phases userId).of t) c
        ((faultyService env fault).exec c p.world).1 := by
      rw [Account.of, Account.of, hlog, hcall, List.foldl_append]
      rfl
    rw [hstep] at hphase
    rcases phase_next_inside hphase with hstill | ⟨seconds, rfl, v, hv⟩
    · exact absurd hstill (not_inside hout ht)
    · -- the EXPIRE was answered, and so it was served
      have hissues := hp t (List.mem_of_getElem? ht)
      rw [hrest] at hissues
      obtain rfl := hissues.1 _ _ rfl
      have hserved : fault = none := by
        cases fault with
        | none => rfl
        | some f => exact absurd hv (by simp [faultyService, Env.execFaulty])
      subst hserved
      have hworld : q.world = (env.exec (.expire (semaphoreKey userId) SEMAPHORE_TTL_SECONDS)
          p.world).2 := hworld
      rw [hworld] at hd ⊢
      rw [exec_now]
      exact keyDeadline_expire hd

end Steps

/-! Runs -/

/-- While the upload is inside, the time of the key covers what the refreshes that fail may cost. -/
structure Covered (userId : String) (i lag : ℕ) (s : Watched) : Prop where
  long : AllLong s.pool
  live : s.Live userId i lag
  last_le : holdsInside userId s.pool i = true → s.last ≤ s.pool.world.now
  deadline : holdsInside userId s.pool i = true → ∀ d ∈ keyDeadline s.pool.world userId,
    s.last + ttlMs ≤ d + s.failed * (SEMAPHORE_TTL_REFRESH_INTERVAL_MS + lag)

section Runs
variable {env : Env} {userId : String} {i lag : ℕ} {s s' : Watched}

theorem holdsInside_of_uploading {p : ServicePool} (h : uploading userId p i = true) :
    holdsInside userId p i = true := (Bool.and_eq_true_iff.mp h).1

theorem Covered.pool (hs : Covered userId i lag s) {fault : Option Fault} {l : Label Call Act}
    (h : s.next env userId i (.pool fault l) = some s') (hlive : s'.Live userId i lag) :
    Covered userId i lag s' := by
  obtain ⟨q, hq, rfl⟩ := Option.map_eq_some_iff.mp h
  by_cases hin : holdsInside userId s.pool i = true
  · rw [if_pos hin] at hlive ⊢
    have hnow := now_le_next hq
    have hlast := hs.last_le hin
    refine ⟨hs.long.next hq, hlive, fun _ => hlast.trans hnow, fun _ d hd => ?_⟩
    rcases keyDeadline_next hs.long hq hd with hold | rfl
    · exact hs.deadline hin d hold
    · -- somebody has given the key its time anew
      have hcost : (0 : ℤ) ≤ s.failed * (SEMAPHORE_TTL_REFRESH_INTERVAL_MS + lag) := by positivity
      calc s.last + ttlMs ≤ s.pool.world.now + ttlMs := by omega
        _ ≤ s.pool.world.now + ttlMs + s.failed * (SEMAPHORE_TTL_REFRESH_INTERVAL_MS + lag) := by
            omega
  · -- the upload was outside: if it has got in, its key has just been given its time
    rw [if_neg hin] at hlive ⊢
    refine ⟨hs.long.next hq, hlive, fun _ => le_refl _, fun hentered d hd => ?_⟩
    have hd := keyDeadline_entered hs.long hq (Bool.eq_false_of_not_eq_true hin) hentered hd
    rw [hd]
    show q.world.now + ttlMs ≤ q.world.now + ttlMs + (0 : ℕ) * _
    simp

/-- The callback is one EXPIRE. -/
theorem run_refresh (fault : Option Fault) (w : World) :
    (Prog.run (env.execFaulty fun _ _ => fault) (refresh userId).run w).world =
      (env.execFaulty (fun _ _ => fault)
        (.expire (semaphoreKey userId) SEMAPHORE_TTL_SECONDS) w).2 := by
  unfold refresh
  rw [ProgE.run_tryCatch_eq, Prog.run_bind]
  have hawait : (Prog.run (env.execFaulty fun _ _ => fault)
      (await (.expire (semaphoreKey userId) SEMAPHORE_TTL_SECONDS)).run w).world =
        (env.execFaulty (fun _ _ => fault)
          (.expire (semaphoreKey userId) SEMAPHORE_TTL_SECONDS) w).2 := rfl
  dsimp only
  cases (Prog.run (env.execFaulty fun _ _ => fault)
      (await (.expire (semaphoreKey userId) SEMAPHORE_TTL_SECONDS)).run w).result with
  | ok v => exact hawait
  | error e => exact hawait

theorem Covered.refresh (hs : Covered userId i lag s) {fault : Option Fault}
    (h : s.next env userId i (.refresh fault) = some s') (hlive : s'.Live userId i lag) :
    Covered userId i lag s' := by
  simp only [Watched.next, Option.ite_none_right_eq_some, Option.some.injEq] at h
  obtain ⟨⟨hup, -⟩, hs'⟩ := h
  have hin := holdsInside_of_uploading hup
  obtain ⟨hdue, -⟩ := hs.live hup
  have hthreads : s'.pool.threads = s.pool.threads := by rw [← hs']
  have hlast : s'.last = s.pool.world.now := by rw [← hs']
  have hfailed : s'.failed = if fault.isSome then s.failed + 1 else 0 := by rw [← hs']
  have hworld : s'.pool.world = (env.execFaulty (fun _ _ => fault)
      (.expire (semaphoreKey userId) SEMAPHORE_TTL_SECONDS) s.pool.world).2 := by
    rw [← run_refresh, ← hs']
  have hnow : s'.pool.world.now = s.pool.world.now := by rw [hworld, now_execFaulty]
  refine ⟨?_, hlive, fun _ => (hlast.trans hnow.symm).le, fun _ d hd => ?_⟩
  · intro t ht
    rw [hthreads] at ht
    exact hs.long t ht
  · rw [hworld] at hd
    rw [hlast, hfailed]
    cases fault with
    | none =>
      -- served: the key has the whole of its time again
      have hd := @keyDeadline_expire env _ _ _ hd
      rw [hd]
      simp
    | some f =>
      have hlong : LongExpiry (.expire (semaphoreKey userId) SEMAPHORE_TTL_SECONDS) := by
        intro key seconds heq
        injection heq with _ hseconds
        exact hseconds.symm
      have hcost : ((s.failed + 1 : ℕ) : ℤ) * (SEMAPHORE_TTL_REFRESH_INTERVAL_MS + lag) =
          s.failed * (SEMAPHORE_TTL_REFRESH_INTERVAL_MS + lag) +
            (SEMAPHORE_TTL_REFRESH_INTERVAL_MS + lag) := by
        rw [Nat.cast_succ, add_one_mul]
      simp only [Option.isSome_some, if_true]
      rw [hcost]
      rcases keyDeadline_execFaulty hlong hd with hold | hanew
      · -- one more interval has passed without a refresh
        have hcover := hs.deadline hin d hold
        omega
      · have hpos : (0 : ℤ) ≤ s.failed * (SEMAPHORE_TTL_REFRESH_INTERVAL_MS + lag) := by positivity
        omega

theorem Covered.runs {s₀ : Watched} (h₀ : Covered userId i lag s₀)
    (h : LiveRuns env userId i lag s₀ s) : Covered userId i lag s := by
  induction h with
  | refl => exact h₀
  | @tail s s' l _ hnext hlive ih =>
    -- a step of the service, or of the upload's own timer
    cases l with
    | pool fault l => exact ih.pool hnext hlive
    | refresh fault => exact ih.refresh hnext hlive

end Runs

/-- An upload that runs in a live process never loses the key of its slot to the time of the key,
whatever else happens: from its acquire to its release, Redis does not find the key overdue. -/
theorem running_upload_keeps_slot {env : Env} {userId : String} {i lag : ℕ} {w : World} {s : Watched}
    (hlag : 5 * (SEMAPHORE_TTL_REFRESH_INTERVAL_MS + lag) < SEMAPHORE_TTL_SECONDS * 1000)
    (h : LiveRuns env userId i lag ⟨⟨w, []⟩, w.now, 0⟩ s)
    (hup : uploading userId s.pool i = true) :
    ¬ Overdue userId s.pool.world ∧
      (Act.expireSemaphore (semaphoreKey userId)).apply s.pool.world = s.pool.world := by
  have hstart : Covered userId i lag ⟨⟨w, []⟩, w.now, 0⟩ := by
    refine ⟨fun t ht => absurd ht List.not_mem_nil, fun hup => ?_, fun _ => le_refl _,
      fun hin => ?_⟩
    · exact absurd hup (by simp [uploading, holdsInside])
    · exact absurd hin (by simp [holdsInside])
  have hs := hstart.runs h
  obtain ⟨hdue, hfailed⟩ := hs.live hup
  have hnot : ¬ Overdue userId s.pool.world := by
    intro hover
    obtain ⟨d, hd, hle⟩ := (Option.any_eq_true _ _).mp hover
    have hle : d ≤ s.pool.world.now := of_decide_eq_true hle
    have hcover := hs.deadline (holdsInside_of_uploading hup) d hd
    -- four failures cost less than the time of the key leaves
    have hcost : (s.failed : ℤ) * (SEMAPHORE_TTL_REFRESH_INTERVAL_MS + lag) ≤
        4 * (SEMAPHORE_TTL_REFRESH_INTERVAL_MS + lag) := by
      apply mul_le_mul_of_nonneg_right
      · omega
      · positivity
    have hlag' : 5 * ((SEMAPHORE_TTL_REFRESH_INTERVAL_MS : ℤ) + lag) < ttlMs := by
      unfold ttlMs
      exact_mod_cast hlag
    omega
  exact ⟨hnot, if_neg hnot⟩

def longUpload : Call :=
  .upload (exampleId 7) ⟨"application/octet-stream", 1, some [0], none⟩ .MESSAGE none none

/-- Four refreshes in a row fail, and the fifth, after 25 minutes, is served; five minutes later the
upload still runs. -/
def fourFailures : List WatchedLabel :=
  [.pool none (.call longUpload), .pool none (.step 0), .pool none (.step 0)] ++
    (List.replicate 4 [.pool none (.act (.tick 300000)),
      .refresh (some ⟨"connection lost", false⟩)]).flatten ++
    [.pool none (.act (.tick 300000)), .refresh none, .pool none (.act (.tick 300000))]

theorem running_upload_keeps_slot_after_failures :
    ∃ s, LiveRuns exampleEnv (exampleId 7) 0 1000 ⟨⟨World.empty, []⟩, 0, 0⟩ s ∧
      s.pool.world.now = 1800000 ∧ ¬ Overdue (exampleId 7) s.pool.world := by
  have hplay : (playLive exampleEnv (exampleId 7) 0 1000 ⟨⟨World.empty, []⟩, 0, 0⟩
      fourFailures).any fun s => s.pool.world.now = 1800000 ∧
        uploading (exampleId 7) s.pool 0 = true := by
    decide +kernel
  obtain ⟨s, hs, hstate⟩ := (Option.any_eq_true _ _).mp hplay
  obtain ⟨hnow, hup⟩ := of_decide_eq_true hstate
  have hrun := liveRuns_of_play .refl hs
  exact ⟨s, hrun, hnow, (running_upload_keeps_slot (by decide) hrun hup).1⟩

end WhisprMedia
