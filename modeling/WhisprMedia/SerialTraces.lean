import WhisprMedia.SerialRuns

/-! The commands of a program that runs alone, each with the world that it finds. -/
namespace Awaiting

variable {C : Type} {R : C → Type} {W α β ε : Type}

namespace Prog

def trace (h : (c : C) → W → R c × W) : Prog C R α → W → List (C × W)
  | .pure _, _ => []
  | .step c k, w => (c, w) :: trace h (k (h c w).1) (h c w).2

variable {h : (c : C) → W → R c × W}

theorem trace_bind (p : Prog C R α) (f : α → Prog C R β) (w : W) :
    trace h (p >>= f) w = trace h p w ++ trace h (f (run h p w).result) (run h p w).world := by
  induction p generalizing w with
  | pure a => rfl
  | step c k ih =>
    rw [step_bind]
    simp only [trace, run_step, ih, List.cons_append]

/-- The log of a run has the commands of its trace. -/
theorem log_of_trace (p : Prog C R α) (w : W) :
    (run h p w).log.map Sigma.fst = (trace h p w).map Prod.fst := by
  induction p generalizing w with
  | pure a => rfl
  | step c k ih => rw [run_step, trace, List.map_cons, List.map_cons, ih]

end Prog

namespace ProgE

/-- Once its first part has returned, a sequence goes on with the second. -/
theorem run_bind_of_ok {h : (c : C) → W → R c × W} {x : ProgE C R ε α} {f : α → ProgE C R ε β} {w : W}
    {a : α} (ha : (Prog.run h x.run w).result = .ok a) :
    Prog.trace h (x >>= f).run w =
        Prog.trace h x.run w ++ Prog.trace h (f a).run (Prog.run h x.run w).world ∧
      (Prog.run h (x >>= f).run w).result =
        (Prog.run h (f a).run (Prog.run h x.run w).world).result ∧
      (Prog.run h (x >>= f).run w).world =
        (Prog.run h (f a).run (Prog.run h x.run w).world).world := by
  rw [run_bind_eq, Prog.trace_bind, Prog.run_bind, ha]
  exact ⟨rfl, rfl, rfl⟩

theorem run_bind_of_error {h : (c : C) → W → R c × W} {x : ProgE C R ε α} {f : α → ProgE C R ε β}
    {w : W} {e : ε} (he : (Prog.run h x.run w).result = .error e) :
    (Prog.run h (x >>= f).run w).result = .error e := by
  rw [run_bind_eq, Prog.run_bind, he]
  rfl

/-- A sequence that returns has returned from its first part. -/
theorem run_bind_ok {h : (c : C) → W → R c × W} {x : ProgE C R ε α} {f : α → ProgE C R ε β} {w : W}
    {b : β} (hb : (Prog.run h (x >>= f).run w).result = .ok b) :
    ∃ a, (Prog.run h x.run w).result = .ok a ∧
      (Prog.run h (f a).run (Prog.run h x.run w).world).result = .ok b := by
  cases hx : (Prog.run h x.run w).result with
  | ok a => exact ⟨a, rfl, (run_bind_of_ok hx).2.1.symm.trans hb⟩
  | error e =>
    have he := (run_bind_of_error (f := f) hx).symm.trans hb
    cases he

/-- A body with a clean-up that returns has returned itself. -/
theorem run_ensuring_ok {h : (c : C) → W → R c × W} {x : ProgE C R ε α} {fin : ProgE C R ε Unit}
    {w : W} {a : α} (ha : (Prog.run h (ensuring x fin).run w).result = .ok a) :
    (Prog.run h x.run w).result = .ok a := by
  rw [run_ensuring_eq, Prog.run_bind] at ha
  obtain ⟨_, -, hr⟩ := run_bind_ok ha
  exact hr

theorem run_map {h : (c : C) → W → R c × W} {x : ProgE C R ε α} {f : α → β} {w : W} :
    Prog.trace h (f <$> x).run w = Prog.trace h x.run w ∧
      (Prog.run h (f <$> x).run w).result = (Prog.run h x.run w).result.map f ∧
      (Prog.run h (f <$> x).run w).world = (Prog.run h x.run w).world := by
  have hmap : (f <$> x).run = (x >>= fun a => (pure (f a) : ProgE C R ε β)).run := rfl
  rw [hmap, run_bind_eq, Prog.trace_bind, Prog.run_bind]
  cases (Prog.run h x.run w).result with
  | ok a => exact ⟨List.append_nil _, rfl, rfl⟩
  | error e => exact ⟨List.append_nil _, rfl, rfl⟩

/-- Run alone from `w`, the program issues commands that satisfy `P` in the worlds they find, and
if it returns, then with `Q`. -/
structure Issuing (h : (c : C) → W → R c × W) (P : C → W → Prop) (x : ProgE C R ε α) (w : W)
    (Q : α → W → Prop) : Prop where
  issued : ∀ e ∈ Prog.trace h x.run w, P e.1 e.2
  returned : ∀ a, (Prog.run h x.run w).result = .ok a → Q a (Prog.run h x.run w).world

variable {h : (c : C) → W → R c × W} {P : C → W → Prop} {x : ProgE C R ε α} {w : W}
  {Q Q₁ : α → W → Prop}

theorem issuing_pure {a : α} (ha : Q a w) : Issuing h P (pure a : ProgE C R ε α) w Q := by
  refine ⟨fun e he => absurd he List.not_mem_nil, fun b hb => ?_⟩
  obtain rfl := Except.ok.inj hb
  exact ha

theorem issuing_throw (e : ε) : Issuing h P (throw e : ProgE C R ε α) w Q := by
  refine ⟨fun e he => absurd he List.not_mem_nil, fun b hb => ?_⟩
  cases hb

theorem issuing_issue {c : C} {k : R c → Except ε α} (hP : P c w)
    (hQ : ∀ a, k (h c w).1 = .ok a → Q a (h c w).2) : Issuing h P (issue c k) w Q := by
  refine ⟨fun e he => ?_, hQ⟩
  obtain rfl := List.mem_singleton.mp he
  exact hP

theorem Issuing.mono (hx : Issuing h P x w Q) (hQ : ∀ a u, Q a u → Q₁ a u) : Issuing h P x w Q₁ :=
  ⟨hx.issued, fun a ha => hQ a _ (hx.returned a ha)⟩

/-- What is known of a part that returns includes its run. -/
theorem Issuing.and_run (hx : Issuing h P x w Q) : Issuing h P x w fun a u =>
    Q a u ∧ (Prog.run h x.run w).result = .ok a ∧ u = (Prog.run h x.run w).world :=
  ⟨hx.issued, fun a ha => ⟨hx.returned a ha, ha, rfl⟩⟩

theorem Issuing.bind {f : α → ProgE C R ε β} {Q' : β → W → Prop} (hx : Issuing h P x w Q)
    (hf : ∀ a u, Q a u → Issuing h P (f a) u Q') : Issuing h P (x >>= f) w Q' := by
  have hissued := hx.issued
  cases hr : (Prog.run h x.run w).result with
  | ok a =>
    have hfa := hf a _ (hx.returned a hr)
    constructor
    · intro e he
      rw [run_bind_eq, Prog.trace_bind, hr] at he
      rcases List.mem_append.mp he with he | he
      · exact hissued e he
      · exact hfa.issued e he
    · intro b hb
      rw [run_bind_eq, Prog.run_bind] at hb ⊢
      dsimp only at hb ⊢
      rw [hr] at hb ⊢
      exact hfa.returned b hb
  | error e =>
    constructor
    · intro e' he
      rw [run_bind_eq, Prog.trace_bind, hr] at he
      rcases List.mem_append.mp he with he | he
      · exact hissued e' he
      · exact absurd he List.not_mem_nil
    · intro b hb
      rw [run_bind_eq, Prog.run_bind] at hb
      dsimp only at hb
      rw [hr] at hb
      cases hb

theorem Issuing.map {f : α → β} {Q' : β → W → Prop} (hx : Issuing h P x w Q)
    (hf : ∀ a u, Q a u → Q' (f a) u) : Issuing h P (f <$> x) w Q' :=
  Issuing.bind hx fun a u ha => issuing_pure (hf a u ha)

/-- What the clean-up issues counts too, after a value and after an error. -/
theorem Issuing.ensuring {fin : ProgE C R ε Unit} (hx : Issuing h P x w Q)
    (hfin : ∀ u, Issuing h P fin u fun _ _ => True) :
    Issuing h P (ensuring x fin) w fun _ _ => True := by
  refine ⟨fun e he => ?_, fun _ _ => trivial⟩
  rw [run_ensuring_eq, Prog.trace_bind] at he
  rcases List.mem_append.mp he with he | he
  · exact hx.issued e he
  · have hclean : Issuing h P (fin >>= fun _ => (ExceptT.mk (pure (Prog.run h x.run w).result) :
        ProgE C R ε α)) (Prog.run h x.run w).world fun _ _ => True :=
      Issuing.bind (hfin _) fun _ _ _ =>
        ⟨fun e he => absurd he List.not_mem_nil, fun _ _ => trivial⟩
    exact hclean.issued e he

/-- A program of which only the kind of its commands matters, with an invariant of the worlds. -/
theorem issuing_of_issues {F : C → Prop} {I : W → Prop} (hx : x.Issues F) (hI : I w)
    (hstep : ∀ c u, F c → I u → P c u ∧ I (h c u).2) : Issuing h P x w fun _ => I := by
  suffices hall : ∀ (p : Prog C R (Except ε α)) (u : W), p.Issues F → I u →
      (∀ e ∈ Prog.trace h p u, P e.1 e.2) ∧ I (Prog.run h p u).world by
    obtain ⟨hP, hI'⟩ := hall x.run w hx hI
    exact ⟨hP, fun _ _ => hI'⟩
  intro p
  induction p with
  | pure a => exact fun u _ hu => ⟨fun e he => absurd he List.not_mem_nil, hu⟩
  | step c k ih =>
    intro u hF hu
    obtain ⟨hP, hI'⟩ := hstep c u hF.1 hu
    obtain ⟨hrest, hend⟩ := ih _ _ (hF.2 _) hI'
    refine ⟨fun e he => ?_, hend⟩
    rcases List.mem_cons.mp he with rfl | he
    · exact hP
    · exact hrest e he

/-- A part of which the kind of its commands is known, and how it ends. -/
theorem issuing_of_ends {F : C → Prop} {E : ε → W → Prop} (hx : x.Issues F)
    (hP : ∀ c u, F c → P c u) (he : Ends h x w Q E) : Issuing h P x w Q :=
  ⟨(issuing_of_issues (I := fun _ => True) hx trivial fun c u hc _ => ⟨hP c u hc, trivial⟩).issued,
    fun _ ha => he.of_ok ha⟩

/-- What a program issues, in the log of its run. -/
theorem Issuing.log {P : C → Prop} (hx : Issuing h (fun c _ => P c) x w Q) :
    ∀ e ∈ (Prog.run h x.run w).log, P e.1 := by
  intro e he
  have hmem : e.1 ∈ (Prog.trace h x.run w).map Prod.fst := by
    rw [← Prog.log_of_trace]
    exact List.mem_map_of_mem he
  obtain ⟨e', he', heq⟩ := List.mem_map.mp hmem
  rw [← heq]
  exact hx.issued e' he'

end ProgE
end Awaiting
