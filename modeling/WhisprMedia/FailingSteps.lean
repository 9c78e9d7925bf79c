import WhisprMedia.LoggedRuns
import WhisprMedia.MediaController
import WhisprMedia.QuietSteps

/-! Bodies of the service that run alone while some of their commands fail. -/
namespace WhisprMedia
open Awaiting

/-- The commands with a fault throw, before or after they have taken effect. -/
def Env.failing (env : Env) (fault : Cmd → Option Fault) : Handler :=
  env.execFaulty fun c _ => fault c

/-- The command takes effect, whatever it is answered. -/
def TakesEffect (fault : Cmd → Option Fault) (c : Cmd) : Prop := ∀ f ∈ fault c, f.applied = true

instance (fault : Cmd → Option Fault) (c : Cmd) : Decidable (TakesEffect fault c) :=
  inferInstanceAs (Decidable (∀ f ∈ fault c, _))

section Failing
variable {env : Env} {fault : Cmd → Option Fault} {c : Cmd} {w : World}

theorem failing_none (h : fault c = none) : env.failing fault c w = env.exec c w := by
  simp only [Env.failing, Env.execFaulty, h]

/-- Without faults the dependencies are healthy. -/
theorem failing_nothing (env : Env) : env.failing (fun _ => none) = env.exec := by
  funext c w
  exact failing_none rfl

theorem failing_some {f : Fault} (h : fault c = some f) : env.failing fault c w =
    (.error f.message, if f.applied then (env.exec c w).2 else w) := by
  simp only [Env.failing, Env.execFaulty, h]

theorem faithful_failing (env : Env) (fault : Cmd → Option Fault) :
    Handler.Faithful env (env.failing fault) := by
  intro c w
  cases hf : fault c with
  | none => exact Or.inr (by rw [failing_none hf])
  | some f =>
    rw [failing_some hf]
    by_cases ha : f.applied = true
    · exact Or.inr (if_pos ha)
    · exact Or.inl (if_neg ha)

theorem failing_media (hc : c.family.writesMedia = false) :
    (env.failing fault c w).2.media = w.media := by
  rcases faithful_failing env fault c w with he | he
  · rw [he]
  · rw [he, exec_media hc]

/-- An answer is the one of the healthy dependency. -/
theorem failing_ok {v : c.Value} {u : World} (h : env.failing fault c w = (.ok v, u)) :
    fault c = none ∧ env.exec c w = (.ok v, u) := by
  cases hf : fault c with
  | none => exact ⟨rfl, (failing_none hf).symm.trans h⟩
  | some f =>
    rw [failing_some hf] at h
    exact absurd (Prod.mk.inj h).1 (by simp)

/-- A command that takes effect leaves the world of the healthy dependency. -/
theorem failing_takesEffect (h : TakesEffect fault c) :
    (env.failing fault c w).2 = (env.exec c w).2 := by
  cases hf : fault c with
  | none => rw [failing_none hf]
  | some f => rw [failing_some hf, if_pos (h f hf)]

theorem failing_not_takesEffect (h : ¬ TakesEffect fault c) : ∃ m,
    env.failing fault c w = (.error m, w) := by
  simp only [TakesEffect, not_forall] at h
  obtain ⟨f, hf, ha⟩ := h
  exact ⟨f.message, by rw [failing_some hf, if_neg ha]⟩

theorem takesEffect_of_none (h : fault c = none) : TakesEffect fault c := by
  intro f hf
  rw [h] at hf
  exact absurd hf (by simp)

/-- A command with a handler of errors around it goes on with its answer or with the default. -/
theorem ends_tried_bind {β : Type} {h : Handler} {c : Cmd} {d : c.Value} {f : c.Value → Svc β}
    {Q : β → World → Prop} {E : Err → World → Prop}
    (hok : ∀ v u, h c w = (.ok v, u) → ProgE.Ends h (f v) u Q E)
    (herr : ∀ m u, h c w = (.error m, u) → ProgE.Ends h (f d) u Q E) :
    ProgE.Ends h ((tryCatch (await c) fun _ => pure d) >>= f) w Q E := by
  refine ProgE.Ends.bind (Q := fun v u => ProgE.Ends h (f v) u Q E) (ProgE.Ends.tryCatch
    (E := fun _ u => ProgE.Ends h (f d) u Q E) (ends_await fun r u hr => ?_)
    fun _ _ he => ProgE.ends_pure he) fun _ _ hf => hf
  cases r with
  | ok v => exact hok v u hr
  | error m => exact herr m u hr

end Failing

/-! Logs of bodies -/

section Logs
variable {α β : Type} {h : Handler} {w : World}

theorem logs_await {c : Cmd} {Q : c.Value → ServiceLog → World → Prop}
    {E : Err → ServiceLog → World → Prop}
    (hok : ∀ v u, h c w = (.ok v, u) → Q v [⟨c, .ok v⟩] u)
    (herr : ∀ m u, h c w = (.error m, u) → E (.error m) [⟨c, .error m⟩] u) :
    ProgE.Logs h (await c) w Q E := by
  refine ProgE.logs_issue (fun v hv => ?_) fun e he => ?_
  · cases hr : (h c w).1 with
    | error m =>
      rw [hr] at hv
      exact absurd hv (by simp [Except.mapError])
    | ok v' =>
      rw [hr] at hv
      obtain rfl := Except.ok.inj hv
      exact hok v' _ (Prod.ext hr rfl)
  · cases hr : (h c w).1 with
    | ok v' =>
      rw [hr] at he
      exact absurd he (by simp [Except.mapError])
    | error m =>
      rw [hr] at he
      obtain rfl := Except.error.inj he
      exact herr m _ (Prod.ext hr rfl)

theorem logs_await_bind {c : Cmd} {f : c.Value → Svc β} {Q : β → ServiceLog → World → Prop}
    {E : Err → ServiceLog → World → Prop}
    (hok : ∀ v u, h c w = (.ok v, u) → ProgE.Logs h (f v) u (fun b l => Q b (⟨c, .ok v⟩ :: l))
      fun e l => E e (⟨c, .ok v⟩ :: l))
    (herr : ∀ m u, h c w = (.error m, u) → E (.error m) [⟨c, .error m⟩] u) :
    ProgE.Logs h (await c >>= f) w Q E := by
  refine ProgE.Logs.bind (Q := fun v l u => l = [⟨c, .ok v⟩] ∧ h c w = (.ok v, u))
    (logs_await (fun v u hv => ⟨rfl, hv⟩) herr) (fun v l u hl => ?_) fun _ _ _ he => he
  rw [hl.1]
  exact hok v u hl.2

theorem logs_sync_bind {x : Except Err α} {f : α → Svc β} {Q : β → ServiceLog → World → Prop}
    {E : Err → ServiceLog → World → Prop} (hE : ∀ e, x = .error e → E e [] w)
    (hf : ∀ a, x = .ok a → ProgE.Logs h (f a) w Q E) : ProgE.Logs h (sync x >>= f) w Q E := by
  cases x with
  | ok a => exact hf a rfl
  | error e => exact ProgE.logs_throw (hE e rfl)

end Logs

end WhisprMedia
