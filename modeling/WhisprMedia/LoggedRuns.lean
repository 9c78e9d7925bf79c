import WhisprMedia.SerialRuns

/-! Programs that run alone, described together with what they have issued and been answered. -/
namespace Awaiting

variable {C : Type} {R : C → Type} {W α β ε : Type}

/-- Handlers that agree on the commands of a program run it in the same way. -/
theorem Prog.Issues.run_congr {P : C → Prop} {p : Prog C R α} (hp : p.Issues P)
    {h h' : (c : C) → W → R c × W} (heq : ∀ c w, P c → h c w = h' c w) (w : W) :
    Prog.run h p w = Prog.run h' p w := by
  induction p generalizing w with
  | pure a => rfl
  | step c k ih =>
    rw [run_step, run_step, heq c w hp.1]
    simp only [ih _ (hp.2 _)]

namespace ProgE

/-- Run alone from `w`, the program returns with `Q` or throws with `E`; both see the log. -/
structure Logs (h : (c : C) → W → R c × W) (x : ProgE C R ε α) (w : W)
    (Q : α → List (Event C R) → W → Prop) (E : ε → List (Event C R) → W → Prop) : Prop where
  logs : match (Prog.run h x.run w).result with
    | .ok a => Q a (Prog.run h x.run w).log (Prog.run h x.run w).world
    | .error e => E e (Prog.run h x.run w).log (Prog.run h x.run w).world

section Logs
variable {h : (c : C) → W → R c × W} {x : ProgE C R ε α} {w : W}
  {Q Q₁ : α → List (Event C R) → W → Prop} {E E₁ : ε → List (Event C R) → W → Prop}

theorem logs_pure {a : α} (ha : Q a [] w) : Logs h (pure a : ProgE C R ε α) w Q E := ⟨ha⟩

theorem logs_throw {e : ε} (he : E e [] w) : Logs h (throw e : ProgE C R ε α) w Q E := ⟨he⟩

theorem logs_issue {c : C} {k : R c → Except ε α}
    (hok : ∀ a, k (h c w).1 = .ok a → Q a [⟨c, (h c w).1⟩] (h c w).2)
    (herr : ∀ e, k (h c w).1 = .error e → E e [⟨c, (h c w).1⟩] (h c w).2) :
    Logs h (issue c k) w Q E := by
  have hrun : Prog.run h (issue c k).run w =
      ⟨k (h c w).1, (h c w).2, [⟨c, (h c w).1⟩]⟩ := rfl
  constructor
  rw [hrun]
  cases hk : k (h c w).1 with
  | ok a => exact hok a hk
  | error e => exact herr e hk

theorem Logs.mono (hx : Logs h x w Q E) (hQ : ∀ a l w', Q a l w' → Q₁ a l w')
    (hE : ∀ e l w', E e l w' → E₁ e l w') : Logs h x w Q₁ E₁ := by
  constructor
  have hlogs := hx.logs
  split
  · next a ha =>
    rw [ha] at hlogs
    exact hQ _ _ _ hlogs
  · next e he =>
    rw [he] at hlogs
    exact hE _ _ _ hlogs

/-- The second part adds its log to the log of the first. -/
theorem Logs.bind {f : α → ProgE C R ε β} {Q' : β → List (Event C R) → W → Prop}
    (hx : Logs h x w Q E)
    (hf : ∀ a l w', Q a l w' → Logs h (f a) w' (fun b l' => Q' b (l ++ l'))
      fun e l' => E₁ e (l ++ l'))
    (hE : ∀ e l w', E e l w' → E₁ e l w') : Logs h (x >>= f) w Q' E₁ := by
  constructor
  have hlogs := hx.logs
  rw [run_bind_eq, Prog.run_bind]
  cases hr : (Prog.run h x.run w).result with
  | ok a =>
    rw [hr] at hlogs
    exact (hf a _ _ hlogs).logs
  | error e =>
    rw [hr] at hlogs
    simp only [Prog.run_pure, List.append_nil]
    exact hE _ _ _ hlogs

theorem Logs.map {f : α → β} {Q' : β → List (Event C R) → W → Prop} (hx : Logs h x w Q E)
    (hf : ∀ a l w', Q a l w' → Q' (f a) l w') : Logs h (f <$> x) w Q' E := by
  refine Logs.bind hx (fun a l w' ha => logs_pure ?_) fun _ _ _ he => he
  rw [List.append_nil]
  exact hf a l w' ha

theorem Logs.tryCatch {handle : ε → ProgE C R ε α} (hx : Logs h x w Q E)
    (hh : ∀ e l w', E e l w' → Logs h (handle e) w' (fun a l' => Q a (l ++ l'))
      fun e' l' => E₁ e' (l ++ l')) : Logs h (tryCatch x handle) w Q E₁ := by
  constructor
  have hlogs := hx.logs
  rw [run_tryCatch_eq, Prog.run_bind]
  cases hr : (Prog.run h x.run w).result with
  | ok a =>
    rw [hr] at hlogs
    simp only [Prog.run_pure, List.append_nil]
    exact hlogs
  | error e =>
    rw [hr] at hlogs
    exact (hh e _ _ hlogs).logs

theorem Logs.ensuring {fin : ProgE C R ε Unit} (hx : Logs h x w Q E)
    (hok : ∀ a l w', Q a l w' → Logs h fin w' (fun _ l' => Q₁ a (l ++ l'))
      fun e l' => E₁ e (l ++ l'))
    (herr : ∀ e l w', E e l w' → Logs h fin w' (fun _ l' => E₁ e (l ++ l'))
      fun e' l' => E₁ e' (l ++ l')) :
    Logs h (ensuring x fin) w Q₁ E₁ := by
  constructor
  have hlogs := hx.logs
  rw [run_ensuring_eq, Prog.run_bind]
  cases hr : (Prog.run h x.run w).result with
  | ok a =>
    rw [hr] at hlogs
    have hfin : Logs h (fin >>= fun _ => (pure a : ProgE C R ε α)) (Prog.run h x.run w).world
        (fun b l' => Q₁ b ((Prog.run h x.run w).log ++ l'))
        fun e l' => E₁ e ((Prog.run h x.run w).log ++ l') := by
      refine Logs.bind (hok a _ _ hlogs) (fun _ l' w' ha => ?_) fun _ _ _ he => he
      exact logs_pure (by rwa [List.append_nil])
    exact hfin.logs
  | error e =>
    rw [hr] at hlogs
    have hfin : Logs h (fin >>= fun _ => (throw e : ProgE C R ε α)) (Prog.run h x.run w).world
        (fun b l' => Q₁ b ((Prog.run h x.run w).log ++ l'))
        fun e l' => E₁ e ((Prog.run h x.run w).log ++ l') := by
      refine Logs.bind (herr e _ _ hlogs) (fun _ l' w' he => ?_) fun _ _ _ he => he
      exact logs_throw (by rwa [List.append_nil])
    exact hfin.logs

/-- A part of which only the commands matter. -/
theorem Ends.logs {P : C → Prop} {Q : α → W → Prop} {E : ε → W → Prop} (hx : Ends h x w Q E)
    (hi : x.Issues P) : Logs h x w (fun a l w' => Q a w' ∧ ∀ e ∈ l, P e.1)
      fun e l w' => E e w' ∧ ∀ e' ∈ l, P e'.1 := by
  have hlog : ∀ e ∈ (Prog.run h x.run w).log, P e.1 := fun e he => Prog.Issues.of_mem_log hi h w he
  have hends := hx.ends
  constructor
  split
  · next a ha =>
    rw [ha] at hends
    exact ⟨hends, hlog⟩
  · next e he =>
    rw [he] at hends
    exact ⟨hends, hlog⟩

theorem Logs.of_run (hx : Logs h x w (fun a l w' => Q a l w') E) {a : α}
    (ha : (Prog.run h x.run w).result = .ok a) :
    Q a (Prog.run h x.run w).log (Prog.run h x.run w).world := by
  have hlogs := hx.logs
  rwa [ha] at hlogs

end Logs

end ProgE

end Awaiting
