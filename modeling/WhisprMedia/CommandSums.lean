import WhisprMedia.AwaitProgram

/-! Programs that issue commands of two kinds: the commands of an inner program, and commands of a
layer around it. Leaving out the commands of the layer gives the inner program back. -/
namespace Awaiting

variable {C C' : Type} {R : C → Type} {R' : C' → Type} {W α α' β β' ε ε' : Type}

/-- What commands of two kinds are answered. -/
abbrev SumReply (R : C → Type) (R' : C' → Type) : C ⊕ C' → Type
  | .inl c => R c
  | .inr c => R' c

/-- The inner commands of a log with their answers. -/
def innerLog : List (Event (C ⊕ C') (SumReply R R')) → List (Event C R)
  | [] => []
  | ⟨.inl c, r⟩ :: log => ⟨c, r⟩ :: innerLog log
  | ⟨.inr _, _⟩ :: log => innerLog log

theorem innerLog_append (l l' : List (Event (C ⊕ C') (SumReply R R'))) :
    innerLog (l ++ l') = innerLog l ++ innerLog l' := by
  induction l with
  | nil => rfl
  | cons e l ih =>
    obtain ⟨c | c, r⟩ := e
    · exact congrArg (⟨c, r⟩ :: ·) ih
    · exact ih

theorem mem_innerLog {l : List (Event (C ⊕ C') (SumReply R R'))} {c : C} {r : R c} :
    (⟨c, r⟩ : Event C R) ∈ innerLog l ↔
      (⟨.inl c, r⟩ : Event (C ⊕ C') (SumReply R R')) ∈ l := by
  induction l with
  | nil => simp [innerLog]
  | cons e l ih =>
    obtain ⟨d | d, s⟩ := e
    · simp only [innerLog, List.mem_cons, ih, Sigma.mk.injEq, Sum.inl.injEq]
    · simp only [innerLog, List.mem_cons, ih, Sigma.mk.injEq, reduceCtorEq, false_and, false_or]

/-- An event of the inner program, among more commands. -/
def lift (e : Event C R) : Event (C ⊕ C') (SumReply R R') := ⟨.inl e.1, e.2⟩

namespace Prog

theorem bind_pure (q : Prog C R α) : (q >>= fun a => Prog.pure a) = q := by
  induction q with
  | pure a => rfl
  | step c k ih =>
    rw [step_bind]
    exact congrArg (Prog.step c) (funext ih)

/-- The same program among more commands. -/
def inner : Prog C R α → Prog (C ⊕ C') (SumReply R R') α
  | .pure a => .pure a
  | .step c k => .step (.inl c) fun r => inner (k r)

theorem follows_of_inner {q : Prog C R α} {l : List (Event (C ⊕ C') (SumReply R R'))} {a : α}
    (h : q.inner.Follows l (.pure a)) : ∃ l', l = l'.map lift ∧ q.Follows l' (.pure a) := by
  induction q generalizing l with
  | pure b =>
    obtain ⟨rfl, hb⟩ := Follows.of_pure h
    obtain rfl := Prog.pure.inj hb
    exact ⟨[], rfl, .done _⟩
  | step c k ih =>
    cases h with
    | step h =>
      obtain ⟨l', rfl, h'⟩ := ih _ h
      exact ⟨⟨c, _⟩ :: l', rfl, .step h'⟩

/-- Without the commands of its layer, whatever these are answered, `p` goes as `q` does, to results
that are related by `V`. -/
def Erases (V : α' → α → Prop) : Prog (C ⊕ C') (SumReply R R') α' → Prog C R α → Prop
  | .pure a', q => ∃ a, q = .pure a ∧ V a' a
  | .step (.inl c) k, q => ∃ k', q = .step c k' ∧ ∀ r, Erases V (k r) (k' r)
  | .step (.inr _) k, q => ∀ r, Erases V (k r) q

section Erases
variable {V : α' → α → Prop} {U : β' → β → Prop}

theorem erases_inner (q : Prog C R α) :
    Erases (fun a' a => a' = a) (q.inner : Prog (C ⊕ C') (SumReply R R') α) q := by
  induction q with
  | pure a => exact ⟨a, rfl, rfl⟩
  | step c k ih => exact ⟨k, rfl, ih⟩

theorem Erases.bind {p : Prog (C ⊕ C') (SumReply R R') α'} {q : Prog C R α}
    {f : α' → Prog (C ⊕ C') (SumReply R R') β'} {g : α → Prog C R β} (h : Erases V p q)
    (hf : ∀ a' a, V a' a → Erases U (f a') (g a)) : Erases U (p >>= f) (q >>= g) := by
  induction p generalizing q with
  | pure a' =>
    obtain ⟨a, rfl, ha⟩ := h
    exact hf a' a ha
  | step c k ih =>
    cases c with
    | inl c =>
      obtain ⟨k', rfl, hk⟩ := h
      exact ⟨fun r => k' r >>= g, rfl, fun r => ih r (hk r)⟩
    | inr c => exact fun r => ih r (h r)

end Erases

end Prog

namespace ProgE

theorem bind_pure (x : ProgE C R ε α) : (x >>= fun a => pure a) = x := by
  refine (congrArg (x.run >>= ·) (funext fun r => ?_)).trans (Prog.bind_pure x.run)
  cases r <;> rfl

/-- An inner program as a part of the whole, which has its own errors. -/
def inner (err : ε → ε') (x : ProgE C R ε α) : ProgE (C ⊕ C') (SumReply R R') ε' α :=
  ExceptT.mk (x.run.inner >>= fun r => .pure (r.mapError err))

/-- A command of the layer. -/
def outer (c : C') : ProgE (C ⊕ C') (SumReply R R') ε' (R' c) :=
  ExceptT.mk (.step (.inr c) fun r => .pure (.ok r))

theorem follows_of_inner {x : ProgE C R ε α} {err : ε → ε'}
    {l : List (Event (C ⊕ C') (SumReply R R'))} {r : Except ε' α}
    (h : (inner err x).run.Follows l (.pure r)) :
    ∃ l' r', l = l'.map lift ∧ x.run.Follows l' (.pure r') ∧ r = r'.mapError err := by
  obtain ⟨l₁, r', l₂, rfl, h₁, h₂⟩ := Prog.Follows.of_bind h
  obtain ⟨rfl, hr⟩ := h₂.of_pure
  obtain ⟨l', rfl, h'⟩ := Prog.follows_of_inner h₁
  exact ⟨l', r', List.append_nil _, h', Prog.pure.inj hr⟩

/-- An inner part that has returned. -/
theorem returned_of_inner {x : ProgE C R ε α} {err : ε → ε'}
    {l : List (Event (C ⊕ C') (SumReply R R'))} {a : α}
    (h : (inner err x).run.Follows l (.pure (.ok a))) :
    ∃ l', l = l'.map lift ∧ x.run.Follows l' (.pure (.ok a)) := by
  obtain ⟨l', r', hl, hx, hr⟩ := follows_of_inner h
  cases r' with
  | ok a' =>
    obtain rfl := Except.ok.inj hr
    exact ⟨l', hl, hx⟩
  | error e => exact absurd hr (by simp [Except.mapError])

theorem follows_of_map {x : ProgE C R ε α} {f : α → β} {log : List (Event C R)} {r : Except ε β}
    (h : (f <$> x).run.Follows log (.pure r)) :
    ∃ r', x.run.Follows log (.pure r') ∧ r = r'.map f := by
  rcases follows_of_bind h with ⟨e, h₁, rfl⟩ | ⟨a, l₁, l₂, rfl, h₁, h₂⟩
  · exact ⟨.error e, h₁, rfl⟩
  · obtain ⟨rfl, hr⟩ := Prog.Follows.of_pure h₂
    rw [List.append_nil]
    exact ⟨.ok a, h₁, Prog.pure.inj hr⟩

/-- Results that correspond: the values are related, or the errors are the same one. -/
def Corresponds (err : ε → ε') (V : α' → α → Prop) : Except ε' α' → Except ε α → Prop
  | .ok a', .ok a => V a' a
  | .error e', .error e => e' = err e
  | _, _ => False

/-- `Prog.Erases`, for programs that may throw. -/
def Erases (err : ε → ε') (V : α' → α → Prop) (x : ProgE (C ⊕ C') (SumReply R R') ε' α')
    (y : ProgE C R ε α) : Prop := Prog.Erases (Corresponds err V) x.run y.run

section Erases
variable {err : ε → ε'} {V : α' → α → Prop} {U : β' → β → Prop}
  {x : ProgE (C ⊕ C') (SumReply R R') ε' α'} {y : ProgE C R ε α}

theorem erases_inner (y : ProgE C R ε α) :
    Erases err (fun a' a => a' = a) (inner err y : ProgE (C ⊕ C') (SumReply R R') ε' α) y := by
  have hinner : Prog.Erases (fun a' a => a' = a)
      (y.run.inner : Prog (C ⊕ C') (SumReply R R') (Except ε α)) y.run := Prog.erases_inner y.run
  have h := Prog.Erases.bind (U := Corresponds err fun a' a : α => a' = a)
    (g := fun r => .pure r) (f := fun r => .pure (r.mapError err))
    hinner (by
      rintro r _ rfl
      refine ⟨r, rfl, ?_⟩
      cases r <;> rfl)
  rw [Prog.bind_pure] at h
  exact h

theorem erases_pure {a' : α'} {a : α} (h : V a' a) :
    Erases err V (pure a' : ProgE (C ⊕ C') (SumReply R R') ε' α') (pure a : ProgE C R ε α) :=
  ⟨.ok a, rfl, h⟩

theorem Erases.bind {f : α' → ProgE (C ⊕ C') (SumReply R R') ε' β'} {g : α → ProgE C R ε β}
    (h : Erases err V x y) (hf : ∀ a' a, V a' a → Erases err U (f a') (g a)) :
    Erases err U (x >>= f) (y >>= g) := by
  unfold Erases
  rw [run_bind_eq, run_bind_eq]
  refine Prog.Erases.bind h fun r' r hr => ?_
  cases r' with
  | ok a' =>
    cases r with
    | ok a => exact hf a' a hr
    | error e => exact hr.elim
  | error e' =>
    cases r with
    | ok a => exact hr.elim
    | error e => exact ⟨.error e, rfl, hr⟩

/-- A command of the layer before the rest. -/
theorem erases_outer_bind {c : C'} {f : R' c → ProgE (C ⊕ C') (SumReply R R') ε' α'}
    (h : ∀ r, Erases err V (f r) y) : Erases err V (outer c >>= f) y :=
  fun r => h r

/-- A command of the layer as the last one. -/
theorem erases_outer_then {c : C'} {a : α} {T : R' c → α → Prop} (h : ∀ r, T r a) :
    Erases err T (outer c) (pure a : ProgE C R ε α) :=
  fun r => ⟨.ok a, rfl, h r⟩

/-- An inner part that both programs begin with. -/
theorem erases_inner_bind {z : ProgE C R ε β} {f : β → ProgE (C ⊕ C') (SumReply R R') ε' α'}
    {g : β → ProgE C R ε α} (h : ∀ b, Erases err V (f b) (g b)) :
    Erases err V (inner err z >>= f) (z >>= g) :=
  (erases_inner z).bind fun b' _ hb => hb ▸ h b'

theorem Erases.map {f : α' → β'} {g : α → β} (h : Erases err V x y)
    (hf : ∀ a' a, V a' a → U (f a') (g a)) : Erases err U (f <$> x) (g <$> y) :=
  Erases.bind h fun a' a ha => erases_pure (hf a' a ha)

theorem Erases.ensuring {fin : ProgE C R ε Unit} (h : Erases err V x y) :
    Erases err V (ensuring x (inner err fin)) (ensuring y fin) := by
  refine Prog.Erases.bind h fun r' r hr => ?_
  refine Erases.bind (erases_inner fin) fun _ _ _ => ⟨r, rfl, hr⟩

end Erases

end ProgE

end Awaiting
