import WhisprMedia.Rows
import WhisprMedia.SerialRuns

/-! The rules for a body of the service that runs alone. -/
namespace WhisprMedia
open Awaiting

/-- How commands are answered: by `Env.exec`, or with failures. -/
abbrev Handler := (c : Cmd) → World → c.Reply × World

abbrev ServiceServed := Served Cmd Cmd.Reply World Call (Except Err Reply)

variable {α β : Type} {h : Handler} {w : World}

/-- An awaited command, given what it answers now. -/
theorem ends_await {c : Cmd} {Q : c.Value → World → Prop} {E : Err → World → Prop}
    (hc : ∀ r u, h c w = (r, u) → match r with
      | .ok v => Q v u
      | .error e => E (.error e) u) : ProgE.Ends h (await c) w Q E := by
  refine ProgE.ends_issue ?_
  have hr := hc (h c w).1 (h c w).2 rfl
  split at hr
  · next v hv => rw [hv]; exact hr
  · next e he => rw [he]; exact hr

/-- An awaited command that is known to be answered with a value. -/
theorem ends_await_ok {c : Cmd} {v : c.Value} {u : World} {Q : c.Value → World → Prop}
    {E : Err → World → Prop} (hc : h c w = (.ok v, u)) (hQ : Q v u) :
    ProgE.Ends h (await c) w Q E := by
  refine ends_await fun r u' hr => ?_
  obtain ⟨rfl, rfl⟩ := Prod.mk.inj (hc.symm.trans hr)
  exact hQ

theorem ends_await_bind {c : Cmd} {v : c.Value} {u : World} {f : c.Value → Svc β}
    {Q : β → World → Prop} {E : Err → World → Prop} (hc : h c w = (.ok v, u))
    (hf : ProgE.Ends h (f v) u Q E) : ProgE.Ends h (await c >>= f) w Q E := by
  refine ProgE.Ends.bind (Q := fun r u' => r = v ∧ u' = u) (ends_await_ok hc ⟨rfl, rfl⟩) ?_
  rintro _ _ ⟨rfl, rfl⟩
  exact hf

/-- The same with a handler of errors around the command. -/
theorem ends_quietly_bind {c : Cmd} {v d : c.Value} {u : World} {f : c.Value → Svc β}
    {Q : β → World → Prop} {E : Err → World → Prop} (hc : h c w = (.ok v, u))
    (hf : ProgE.Ends h (f v) u Q E) :
    ProgE.Ends h ((tryCatch (await c) fun _ => pure d) >>= f) w Q E := by
  refine ProgE.Ends.bind (Q := fun r u' => r = v ∧ u' = u)
    (ProgE.Ends.tryCatch (E := fun _ _ => False) (ends_await_ok hc ⟨rfl, rfl⟩) fun _ _ h => h.elim) ?_
  rintro _ _ ⟨rfl, rfl⟩
  exact hf

theorem ends_sync {x : Except Err α} {Q : α → World → Prop} {E : Err → World → Prop}
    (hQ : ∀ a, x = .ok a → Q a w) (hE : ∀ e, x = .error e → E e w) :
    ProgE.Ends h (sync x) w Q E := by
  cases x with
  | ok a => exact ⟨hQ a rfl⟩
  | error e => exact ⟨hE e rfl⟩

theorem ends_sync_bind {x : Except Err α} {f : α → Svc β} {Q : β → World → Prop}
    {E : Err → World → Prop} (hE : ∀ e, x = .error e → E e w)
    (hf : ∀ a, x = .ok a → ProgE.Ends h (f a) w Q E) : ProgE.Ends h (sync x >>= f) w Q E := by
  cases x with
  | ok a => exact hf a rfl
  | error e => exact ⟨hE e rfl⟩

/-- A part of which only the stores it addresses matter. -/
theorem ends_of_touches {F : List Family} {x : Svc α} {S : World → World → Prop}
    (hx : Touches F x) (hrefl : ∀ u, S u u) (htrans : ∀ u v v', S u v → S v v' → S u v')
    (hstep : ∀ c u, c.family ∈ F → S u (h c u).2) :
    ProgE.Ends h x w (fun _ => S w) (fun _ => S w) :=
  ProgE.ends_of_issues hx.issues hrefl htrans hstep

end WhisprMedia
