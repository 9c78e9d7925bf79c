import WhisprMedia.ThreadPool

/-! Programs that run alone, one after the other. A program is described by what holds when it
returns and what holds when it throws; a serial run serves whole calls between acts. -/
namespace Awaiting

variable {C : Type} {R : C → Type} {W Call Act Out α β ε : Type}

/-- The log of a run leads to its result. -/
theorem Prog.follows_run (h : (c : C) → W → R c × W) (p : Prog C R α) (w : W) :
    p.Follows (Prog.run h p w).log (.pure (Prog.run h p w).result) := by
  induction p generalizing w with
  | pure a => exact .done _
  | step c k ih => exact .step (ih _ _)

namespace ProgE

/-- Run alone from `w`, the program returns with `Q` or throws with `E`. -/
structure Ends (h : (c : C) → W → R c × W) (x : ProgE C R ε α) (w : W) (Q : α → W → Prop)
    (E : ε → W → Prop) : Prop where
  ends : match (Prog.run h x.run w).result with
    | .ok a => Q a (Prog.run h x.run w).world
    | .error e => E e (Prog.run h x.run w).world

section Ends
variable {h : (c : C) → W → R c × W} {x : ProgE C R ε α} {w : W} {Q Q₁ : α → W → Prop}
  {E E₁ : ε → W → Prop}

theorem ends_pure {a : α} (ha : Q a w) : Ends h (pure a : ProgE C R ε α) w Q E := ⟨ha⟩

theorem ends_throw {e : ε} (he : E e w) : Ends h (throw e : ProgE C R ε α) w Q E := ⟨he⟩

theorem ends_issue {c : C} {k : R c → Except ε α}
    (hk : match k (h c w).1 with
      | .ok a => Q a (h c w).2
      | .error e => E e (h c w).2) : Ends h (issue c k) w Q E := ⟨hk⟩

theorem Ends.mono (hx : Ends h x w Q E) (hQ : ∀ a w', Q a w' → Q₁ a w')
    (hE : ∀ e w', E e w' → E₁ e w') : Ends h x w Q₁ E₁ := by
  constructor
  have hends := hx.ends
  split
  · next a ha =>
    rw [ha] at hends
    exact hQ _ _ hends
  · next e he =>
    rw [he] at hends
    exact hE _ _ hends

theorem Ends.and (hx : Ends h x w Q E) (hx₁ : Ends h x w Q₁ E₁) :
    Ends h x w (fun a w' => Q a w' ∧ Q₁ a w') (fun e w' => E e w' ∧ E₁ e w') := by
  constructor
  have h1 := hx.ends
  have h2 := hx₁.ends
  split
  · next a ha =>
    rw [ha] at h1 h2
    exact ⟨h1, h2⟩
  · next e he =>
    rw [he] at h1 h2
    exact ⟨h1, h2⟩

/-- What is known of a part that returns includes its run. -/
theorem Ends.and_run (hx : Ends h x w Q E) : Ends h x w (fun a w' => Q a w' ∧
    (Prog.run h x.run w).result = .ok a ∧ w' = (Prog.run h x.run w).world) E := by
  constructor
  have hends := hx.ends
  split
  · next a ha =>
    rw [ha] at hends
    exact ⟨hends, ha, rfl⟩
  · next e he =>
    rw [he] at hends
    exact hends

/-- An error at the end is one that the program can throw. -/
theorem Ends.and_throws {T : ε → Prop} (hx : Ends h x w Q E) (ht : x.Throws T) :
    Ends h x w Q fun e w' => E e w' ∧ T e := by
  have hlog := Prog.follows_run h x.run w
  constructor
  have hends := hx.ends
  split
  · next a ha =>
    rw [ha] at hends
    exact hends
  · next e he =>
    rw [he] at hends hlog
    exact ⟨hends, ht _ _ hlog⟩

theorem Ends.bind {f : α → ProgE C R ε β} {Q' : β → W → Prop} (hx : Ends h x w Q E)
    (hf : ∀ a w', Q a w' → Ends h (f a) w' Q' E) : Ends h (x >>= f) w Q' E := by
  constructor
  have hends := hx.ends
  rw [run_bind_eq, Prog.run_bind]
  cases hr : (Prog.run h x.run w).result with
  | ok a =>
    rw [hr] at hends
    exact (hf a _ hends).ends
  | error e =>
    rw [hr] at hends
    exact hends

theorem Ends.map {f : α → β} {Q' : β → W → Prop} (hx : Ends h x w Q E)
    (hf : ∀ a w', Q a w' → Q' (f a) w') : Ends h (f <$> x) w Q' E :=
  Ends.bind hx fun a _ ha => ends_pure (hf a _ ha)

theorem Ends.tryCatch {handle : ε → ProgE C R ε α} (hx : Ends h x w Q E)
    (hh : ∀ e w', E e w' → Ends h (handle e) w' Q E₁) : Ends h (tryCatch x handle) w Q E₁ := by
  constructor
  have hends := hx.ends
  rw [run_tryCatch_eq, Prog.run_bind]
  cases hr : (Prog.run h x.run w).result with
  | ok a =>
    rw [hr] at hends
    exact hends
  | error e =>
    rw [hr] at hends
    exact (hh e _ hends).ends

theorem Ends.ensuring {fin : ProgE C R ε Unit} (hx : Ends h x w Q E)
    (hok : ∀ a w', Q a w' → Ends h fin w' (fun _ => Q₁ a) E₁)
    (herr : ∀ e w', E e w' → Ends h fin w' (fun _ => E₁ e) E₁) :
    Ends h (ensuring x fin) w Q₁ E₁ := by
  constructor
  have hends := hx.ends
  rw [run_ensuring_eq, Prog.run_bind]
  cases hr : (Prog.run h x.run w).result with
  | ok a =>
    rw [hr] at hends
    exact (Ends.bind (hok a _ hends) fun _ _ ha => ends_pure ha).ends
  | error e =>
    rw [hr] at hends
    exact (Ends.bind (f := fun _ => throw e) (herr e _ hends)
      fun _ _ he => ends_throw (Q := Q₁) he).ends

/-- A relation that every command of the program respects. -/
theorem ends_of_issues {P : C → Prop} {S : W → W → Prop} (hx : x.Issues P) (hrefl : ∀ u, S u u)
    (htrans : ∀ u v v', S u v → S v v' → S u v') (hstep : ∀ c u, P c → S u (h c u).2) :
    Ends h x w (fun _ => S w) (fun _ => S w) := by
  constructor
  have hrel := Prog.Issues.run_rel hx h S hrefl htrans hstep w
  split <;> exact hrel

/-- Two parts that respect a transitive relation, one after the other. -/
theorem Ends.bind_trans {S : W → W → Prop} (htrans : ∀ u v v', S u v → S v v' → S u v')
    {f : α → ProgE C R ε β} (hx : Ends h x w (fun _ => S w) fun _ => S w)
    (hf : ∀ a u, Ends h (f a) u (fun _ => S u) fun _ => S u) :
    Ends h (x >>= f) w (fun _ => S w) fun _ => S w :=
  Ends.bind hx fun a u hu =>
    (hf a u).mono (fun _ _ h' => htrans _ _ _ hu h') fun _ _ h' => htrans _ _ _ hu h'

/-- What the outcome of a run is, if it can only be this. -/
theorem Ends.result {o : Except ε α}
    (hx : Ends h x w (fun a _ => .ok a = o) fun e _ => .error e = o) :
    (Prog.run h x.run w).result = o := by
  have hends := hx.ends
  split at hends
  · next a ha => rw [ha, hends]
  · next e he => rw [he, hends]

theorem Ends.of_ok {a : α} (hx : Ends h x w Q E) (hr : (Prog.run h x.run w).result = .ok a) :
    Q a (Prog.run h x.run w).world := by
  have hends := hx.ends
  rwa [hr] at hends

theorem Ends.of_error {e : ε} (hx : Ends h x w Q E)
    (hr : (Prog.run h x.run w).result = .error e) : E e (Prog.run h x.run w).world := by
  have hends := hx.ends
  rwa [hr] at hends

end Ends
end ProgE

/-! Serial runs -/

/-- A call that was served: the world it found, and what it left. -/
structure Served (C : Type) (R : C → Type) (W Call Out : Type) where
  call : Call
  before : W
  done : Prog.Done C R W Out

namespace System

variable (S : System C R W Call Act Out)

/-- Run the body of a call alone. -/
def serve (x : Call) (w : W) : Prog.Done C R W Out := Prog.run S.exec (S.body x) w

/-- Calls and acts one after the other, as far as `ok` allows them; the calls are listed. -/
inductive Serial (ok : W → Label Call Act → Prop) : W → List (Served C R W Call Out) → W → Prop
  | refl (w) : Serial ok w [] w
  | call {w tr u x} : Serial ok w tr u → ok u (.call x) →
      Serial ok w (tr ++ [⟨x, u, S.serve x u⟩]) (S.serve x u).world
  | act {w tr u a} : Serial ok w tr u → ok u (.act a) → Serial ok w tr (S.act a u)

end System
end Awaiting
