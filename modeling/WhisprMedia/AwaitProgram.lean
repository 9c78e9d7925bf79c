import Mathlib.Tactic.Common

/-! Programs that await commands, as trees of commands and continuations. The same tree is
run alone, run with failing commands, or interleaved with others. -/
namespace Awaiting

/-- A program over the commands `C`; a command `c` is answered by a value of `R c`. -/
inductive Prog (C : Type) (R : C → Type) (α : Type) where
  | pure (a : α)
  | step (c : C) (k : R c → Prog C R α)

/-- A command together with its answer. -/
abbrev Event (C : Type) (R : C → Type) := Σ c : C, R c

variable {C : Type} {R : C → Type} {W α β ε : Type}

namespace Prog

def bind : Prog C R α → (α → Prog C R β) → Prog C R β
  | .pure a, f => f a
  | .step c k, f => .step c fun r => bind (k r) f

instance : Monad (Prog C R) where
  pure := Prog.pure
  bind := Prog.bind

@[simp] theorem pure_eq (a : α) : (Pure.pure a : Prog C R α) = .pure a := rfl

@[simp] theorem pure_bind (a : α) (f : α → Prog C R β) : (Prog.pure a >>= f) = f a := rfl

@[simp] theorem step_bind (c : C) (k : R c → Prog C R α) (f : α → Prog C R β) :
    (Prog.step c k >>= f) = Prog.step c fun r => k r >>= f := rfl

theorem bind_bind {γ : Type} (p : Prog C R α) (f : α → Prog C R β) (g : β → Prog C R γ) :
    (p >>= f) >>= g = p >>= fun a => f a >>= g := by
  induction p with
  | pure a => rfl
  | step c k ih => simp only [step_bind, ih]

/-- What a program run alone leaves behind: its result, the world, the commands it issued. -/
structure Done (C : Type) (R : C → Type) (W α : Type) where
  result : α
  world : W
  log : List (Event C R)

/-- Run a program alone against a handler that answers every command. -/
def run (h : (c : C) → W → R c × W) : Prog C R α → W → Done C R W α
  | .pure a, w => ⟨a, w, []⟩
  | .step c k, w =>
    let o := run h (k (h c w).1) (h c w).2
    ⟨o.result, o.world, ⟨c, (h c w).1⟩ :: o.log⟩

section Run
variable (h : (c : C) → W → R c × W)

@[simp] theorem run_pure (a : α) (w : W) : run h (.pure a : Prog C R α) w = ⟨a, w, []⟩ := rfl

theorem run_step (c : C) (k : R c → Prog C R α) (w : W) :
    run h (.step c k) w =
      ⟨(run h (k (h c w).1) (h c w).2).result, (run h (k (h c w).1) (h c w).2).world,
        ⟨c, (h c w).1⟩ :: (run h (k (h c w).1) (h c w).2).log⟩ := rfl

/-- A sequence runs its first part and then its second in the world that is left. -/
theorem run_bind (p : Prog C R α) (f : α → Prog C R β) (w : W) :
    run h (p >>= f) w =
      ⟨(run h (f (run h p w).result) (run h p w).world).result,
        (run h (f (run h p w).result) (run h p w).world).world,
        (run h p w).log ++ (run h (f (run h p w).result) (run h p w).world).log⟩ := by
  induction p generalizing w with
  | pure a => rfl
  | step c k ih => simp only [step_bind, run_step, ih, List.cons_append]
end Run

/-- Every command the program can issue, whatever it is answered, satisfies `P`. -/
def Issues (P : C → Prop) : Prog C R α → Prop
  | .pure _ => True
  | .step c k => P c ∧ ∀ r, Issues P (k r)

@[simp] theorem issues_pure (P : C → Prop) (a : α) : Issues P (.pure a : Prog C R α) := trivial

@[simp] theorem issues_step (P : C → Prop) (c : C) (k : R c → Prog C R α) :
    Issues P (.step c k) ↔ P c ∧ ∀ r, Issues P (k r) := Iff.rfl

theorem Issues.bind {P : C → Prop} {p : Prog C R α} {f : α → Prog C R β}
    (hp : p.Issues P) (hf : ∀ a, (f a).Issues P) : (p >>= f).Issues P := by
  induction p with
  | pure a => exact hf a
  | step c k ih => exact ⟨hp.1, fun r => ih r (hp.2 r)⟩

theorem Issues.mono {P Q : C → Prop} {p : Prog C R α} (hp : p.Issues P)
    (h : ∀ c, P c → Q c) : p.Issues Q := by
  induction p with
  | pure a => trivial
  | step c k ih => exact ⟨h c hp.1, fun r => ih r (hp.2 r)⟩

theorem issues_true (p : Prog C R α) : p.Issues fun _ => True := by
  induction p with
  | pure a => trivial
  | step c k ih => exact ⟨trivial, ih⟩

/-- A relation between worlds that every issued command respects is respected by the run. -/
theorem Issues.run_rel {P : C → Prop} {p : Prog C R α} (hp : p.Issues P)
    (h : (c : C) → W → R c × W) (S : W → W → Prop) (hrefl : ∀ w, S w w)
    (htrans : ∀ u v w, S u v → S v w → S u w) (hstep : ∀ c w, P c → S w (h c w).2) (w : W) :
    S w (run h p w).world := by
  induction p generalizing w with
  | pure a => exact hrefl w
  | step c k ih =>
    rw [run_step]
    exact htrans _ _ _ (hstep c w hp.1) (ih _ (hp.2 _) _)

/-- Only commands the program can issue are in the log of a run. -/
theorem Issues.of_mem_log {P : C → Prop} {p : Prog C R α} (hp : p.Issues P)
    (h : (c : C) → W → R c × W) (w : W) {e : Event C R} (he : e ∈ (run h p w).log) : P e.1 := by
  induction p generalizing w with
  | pure a => simp at he
  | step c k ih =>
    rw [run_step] at he
    rcases List.mem_cons.mp he with rfl | he
    · exact hp.1
    · exact ih _ (hp.2 _) _ he

/-! Logs -/

/-- The program goes on as `q` when its commands are answered as the log says. -/
inductive Follows : Prog C R α → List (Event C R) → Prog C R α → Prop
  | done (p) : Follows p [] p
  | step {c k r log q} : Follows (k r) log q → Follows (.step c k) (⟨c, r⟩ :: log) q

theorem Follows.snoc {p : Prog C R α} {log : List (Event C R)} {c : C} {k : R c → Prog C R α}
    (h : p.Follows log (.step c k)) (r : R c) : p.Follows (log ++ [⟨c, r⟩]) (k r) := by
  generalize hq : Prog.step c k = q at h
  induction h with
  | done p => exact hq ▸ .step (.done (k r))
  | step _ ih => exact .step (ih hq)

theorem Follows.of_pure {a : α} {log : List (Event C R)} {q : Prog C R α}
    (h : (Prog.pure a).Follows log q) : log = [] ∧ q = .pure a := by
  cases h
  exact ⟨rfl, rfl⟩

/-- A finished sequence has finished its first part and then its second. -/
theorem Follows.of_bind {p : Prog C R α} {f : α → Prog C R β} {log : List (Event C R)} {b : β}
    (h : (p >>= f).Follows log (.pure b)) :
    ∃ l₁ a l₂, log = l₁ ++ l₂ ∧ p.Follows l₁ (.pure a) ∧ (f a).Follows l₂ (.pure b) := by
  induction p generalizing log with
  | pure a => exact ⟨[], a, log, rfl, .done _, h⟩
  | step c k ih =>
    cases h with
    | step h =>
      obtain ⟨l₁, a, l₂, hl, h₁, h₂⟩ := ih _ h
      exact ⟨_ :: l₁, a, l₂, by rw [hl]; rfl, .step h₁, h₂⟩

/-- Only commands the program can issue are in a log it follows. -/
theorem Issues.of_follows {P : C → Prop} {p q : Prog C R α} {log : List (Event C R)}
    (hp : p.Issues P) (h : p.Follows log q) : (∀ e ∈ log, P e.1) ∧ q.Issues P := by
  induction h with
  | done p => exact ⟨fun e he => absurd he List.not_mem_nil, hp⟩
  | step _ ih =>
    obtain ⟨hlog, hq⟩ := ih (hp.2 _)
    refine ⟨fun e he => ?_, hq⟩
    rcases List.mem_cons.mp he with rfl | he
    · exact hp.1
    · exact hlog e he

theorem Issues.bind_of_follows {P : C → Prop} {p : Prog C R α} {f : α → Prog C R β}
    (hp : p.Issues P) (hf : ∀ a log, p.Follows log (.pure a) → (f a).Issues P) :
    (p >>= f).Issues P := by
  induction p with
  | pure a => exact hf a [] (.done _)
  | step c k ih => exact ⟨hp.1, fun r => ih r (hp.2 r) fun a log h => hf a _ (.step h)⟩

/-- Every command that the program can issue after `log` satisfies `P`, given what was answered
before it. -/
def IssuesAfter (P : List (Event C R) → C → Prop) : List (Event C R) → Prog C R α → Prop
  | _, .pure _ => True
  | log, .step c k => P log c ∧ ∀ r, IssuesAfter P (log ++ [⟨c, r⟩]) (k r)

section IssuesAfter
variable {P : List (Event C R) → C → Prop} {log : List (Event C R)}

theorem Issues.after {Q : C → Prop} {p : Prog C R α} (hp : p.Issues Q)
    (h : ∀ log c, Q c → P log c) : IssuesAfter P log p := by
  induction p generalizing log with
  | pure a => trivial
  | step c k ih => exact ⟨h _ _ hp.1, fun r => ih r (hp.2 r)⟩

theorem IssuesAfter.mono {P' : List (Event C R) → C → Prop} {p : Prog C R α}
    (hp : IssuesAfter P log p) (h : ∀ log c, P log c → P' log c) : IssuesAfter P' log p := by
  induction p generalizing log with
  | pure a => trivial
  | step c k ih => exact ⟨h _ _ hp.1, fun r => ih r (hp.2 r)⟩

theorem IssuesAfter.bind {p : Prog C R α} {f : α → Prog C R β} (hp : IssuesAfter P log p)
    (hf : ∀ a l, p.Follows l (.pure a) → IssuesAfter P (log ++ l) (f a)) :
    IssuesAfter P log (p >>= f) := by
  induction p generalizing log with
  | pure a =>
    have h := hf a [] (.done _)
    rwa [List.append_nil] at h
  | step c k ih =>
    refine ⟨hp.1, fun r => ih r (hp.2 r) fun a l h => ?_⟩
    rw [List.append_assoc, List.singleton_append]
    exact hf a _ (.step h)

theorem IssuesAfter.of_follows {p q : Prog C R α} {l : List (Event C R)}
    (hp : IssuesAfter P log p) (h : p.Follows l q) : IssuesAfter P (log ++ l) q := by
  induction h generalizing log with
  | done p => rwa [List.append_nil]
  | @step c k r l q _ ih =>
    have hq := ih (hp.2 r)
    rwa [List.append_assoc, List.singleton_append] at hq

/-- A command in a log that the program follows satisfies `P` after what stands before it. -/
theorem IssuesAfter.of_split {p q : Prog C R α} {l₁ l₂ : List (Event C R)} {e : Event C R}
    (hp : IssuesAfter P log p) (h : p.Follows (l₁ ++ e :: l₂) q) : P (log ++ l₁) e.1 := by
  induction l₁ generalizing p log with
  | nil =>
    cases h
    rw [List.append_nil]
    exact hp.1
  | cons e' l₁ ih =>
    cases h with
    | step h =>
      have hlog := ih (hp.2 _) h
      rwa [List.append_assoc, List.singleton_append] at hlog

end IssuesAfter

/-- The program issues `c` and from then on only commands that satisfy `P`. -/
def Starts (c : C) (P : C → Prop) : Prog C R α → Prop
  | .pure _ => False
  | .step c' k => c' = c ∧ ∀ r, (k r).Issues P

theorem Starts.bind {c : C} {P : C → Prop} {p : Prog C R α} {f : α → Prog C R β}
    (hp : p.Starts c P) (hf : ∀ a, (f a).Issues P) : (p >>= f).Starts c P := by
  cases p with
  | pure a => exact hp.elim
  | step c' k => exact ⟨hp.1, fun r => Issues.bind (hp.2 r) hf⟩

theorem Starts.of_follows {c : C} {P : C → Prop} {p q : Prog C R α} {log : List (Event C R)}
    (hp : p.Starts c P) (h : p.Follows log q) :
    (log = [] ∧ q = p) ∨ ∃ v rest, log = ⟨c, v⟩ :: rest ∧ q.Issues P := by
  cases h with
  | done p => exact Or.inl ⟨rfl, rfl⟩
  | step h =>
    obtain ⟨rfl, hk⟩ := hp
    exact Or.inr ⟨_, _, rfl, ((hk _).of_follows h).2⟩

end Prog

/-- Programs that may throw an error of `ε`. -/
abbrev ProgE (C : Type) (R : C → Type) (ε α : Type) := ExceptT ε (Prog C R) α

namespace ProgE

/-- Issue one command and go on with a value or an error. -/
def issue (c : C) (k : R c → Except ε α) : ProgE C R ε α := ExceptT.mk (.step c fun r => .pure (k r))

/-- `try { body } finally { fin }`: the error of `fin`, if it throws, replaces the outcome. -/
def ensuring (body : ProgE C R ε α) (fin : ProgE C R ε Unit) : ProgE C R ε α :=
  ExceptT.mk (body.run >>= fun r => (fin >>= fun _ => (ExceptT.mk (pure r) : ProgE C R ε α)).run)

theorem bind_bind {γ : Type} (x : ProgE C R ε α) (f : α → ProgE C R ε β)
    (g : β → ProgE C R ε γ) : (x >>= f) >>= g = x >>= fun a => f a >>= g := by
  refine (Prog.bind_bind x.run _ _).trans (congrArg (x.run >>= ·) (funext fun r => ?_))
  cases r <;> rfl

theorem run_bind_eq (x : ProgE C R ε α) (f : α → ProgE C R ε β) :
    (x >>= f).run = (x.run >>= fun r => match r with
      | .ok a => (f a).run
      | .error e => .pure (.error e)) := by
  show (x.run >>= ExceptT.bindCont f) = _
  congr 1
  funext r
  cases r <;> rfl

theorem run_ensuring_eq (x : ProgE C R ε α) (fin : ProgE C R ε Unit) :
    (ensuring x fin).run = (x.run >>= fun r =>
      (fin >>= fun _ => (ExceptT.mk (pure r) : ProgE C R ε α)).run) := rfl

theorem run_tryCatch_eq (x : ProgE C R ε α) (handle : ε → ProgE C R ε α) :
    (tryCatch x handle).run = (x.run >>= fun r => match r with
      | .ok a => .pure (.ok a)
      | .error e => (handle e).run) := by
  show (x.run >>= _) = _
  congr 1
  funext r
  cases r <;> rfl

/-- Every command the program can issue satisfies `P`. -/
def Issues (P : C → Prop) (x : ProgE C R ε α) : Prop := x.run.Issues P

variable {P Q : C → Prop} {x : ProgE C R ε α}

theorem issues_pure (a : α) : Issues P (pure a : ProgE C R ε α) := trivial

theorem issues_throw (e : ε) : Issues P (throw e : ProgE C R ε α) := trivial

theorem Issues.mono (hx : x.Issues P) (h : ∀ c, P c → Q c) : x.Issues Q := Prog.Issues.mono hx h

theorem Issues.bind {f : α → ProgE C R ε β} (hx : x.Issues P) (hf : ∀ a, (f a).Issues P) :
    (x >>= f).Issues P := by
  unfold Issues
  rw [run_bind_eq]
  refine Prog.Issues.bind hx fun r => ?_
  cases r with
  | ok a => exact hf a
  | error e => trivial

theorem Issues.tryCatch {handle : ε → ProgE C R ε α} (hx : x.Issues P)
    (hh : ∀ e, (handle e).Issues P) : (tryCatch x handle).Issues P := by
  unfold Issues
  rw [run_tryCatch_eq]
  refine Prog.Issues.bind hx fun r => ?_
  cases r with
  | ok a => trivial
  | error e => exact hh e

theorem Issues.ensuring {fin : ProgE C R ε Unit} (hx : x.Issues P) (hf : fin.Issues P) :
    (ensuring x fin).Issues P :=
  Prog.Issues.bind hx fun _ => Issues.bind hf fun _ => trivial

theorem Issues.map {f : α → β} (hx : x.Issues P) : (f <$> x).Issues P :=
  Issues.bind hx fun a => issues_pure (f a)

/-! Logs of programs that may throw -/

/-- A finished sequence has thrown in its first part, or has gone through both. -/
theorem follows_of_bind {x : ProgE C R ε α} {f : α → ProgE C R ε β} {log : List (Event C R)}
    {r : Except ε β} (h : (x >>= f).run.Follows log (.pure r)) :
    (∃ e, x.run.Follows log (.pure (.error e)) ∧ r = .error e) ∨
    ∃ a l₁ l₂, log = l₁ ++ l₂ ∧ x.run.Follows l₁ (.pure (.ok a)) ∧
      (f a).run.Follows l₂ (.pure r) := by
  rw [run_bind_eq] at h
  obtain ⟨l₁, o, l₂, hl, h₁, h₂⟩ := h.of_bind
  cases o with
  | ok a => exact Or.inr ⟨a, l₁, l₂, hl, h₁, h₂⟩
  | error e =>
    obtain ⟨rfl, hr⟩ := h₂.of_pure
    rw [List.append_nil] at hl
    exact Or.inl ⟨e, hl ▸ h₁, Prog.pure.inj hr⟩

/-- A sequence that has returned. -/
theorem returned_of_bind {x : ProgE C R ε α} {f : α → ProgE C R ε β} {log : List (Event C R)} {b : β}
    (h : (x >>= f).run.Follows log (.pure (.ok b))) : ∃ a l₁ l₂, log = l₁ ++ l₂ ∧
      x.run.Follows l₁ (.pure (.ok a)) ∧ (f a).run.Follows l₂ (.pure (.ok b)) := by
  rcases follows_of_bind h with ⟨e, -, he⟩ | hparts
  · exact absurd he (by simp)
  · exact hparts

theorem follows_of_issue {c : C} {k : R c → Except ε α} {log : List (Event C R)}
    {r : Except ε α} (h : (issue c k).run.Follows log (.pure r)) :
    ∃ v, log = [⟨c, v⟩] ∧ r = k v := by
  cases h with
  | @step _ _ v _ _ h =>
    obtain ⟨rfl, hr⟩ := h.of_pure
    exact ⟨v, rfl, Prog.pure.inj hr⟩

theorem follows_of_ensuring {x : ProgE C R ε α} {fin : ProgE C R ε Unit}
    {log : List (Event C R)} {r : Except ε α}
    (h : (ensuring x fin).run.Follows log (.pure r)) :
    ∃ l₁ l₂ o, log = l₁ ++ l₂ ∧ x.run.Follows l₁ (.pure o) ∧
      ((∃ e, fin.run.Follows l₂ (.pure (.error e)) ∧ r = .error e) ∨
        (fin.run.Follows l₂ (.pure (.ok ())) ∧ r = o)) := by
  obtain ⟨l₁, o, l₂, hl, h₁, h₂⟩ := Prog.Follows.of_bind h
  refine ⟨l₁, l₂, o, hl, h₁, ?_⟩
  rcases follows_of_bind h₂ with he | ⟨⟨⟩, l₃, l₄, rfl, h₃, h₄⟩
  · exact Or.inl he
  · obtain ⟨rfl, hr⟩ := Prog.Follows.of_pure h₄
    rw [List.append_nil]
    exact Or.inr ⟨h₃, Prog.pure.inj hr⟩

/-- A sequence whose second part only needs to be considered after values the first can return. -/
theorem Issues.bind_of_follows {P : C → Prop} {x : ProgE C R ε α} {f : α → ProgE C R ε β}
    (hx : x.Issues P) (hf : ∀ a log, x.run.Follows log (.pure (.ok a)) → (f a).Issues P) :
    (x >>= f).Issues P := by
  unfold Issues
  rw [run_bind_eq]
  refine Prog.Issues.bind_of_follows hx fun r log h => ?_
  cases r with
  | ok a => exact hf a log h
  | error e => trivial

/-- `Prog.IssuesAfter`, for a program that may throw. -/
def IssuesAfter (P : List (Event C R) → C → Prop) (log : List (Event C R))
    (x : ProgE C R ε α) : Prop := Prog.IssuesAfter P log x.run

section IssuesAfter
variable {P : List (Event C R) → C → Prop} {log : List (Event C R)} {x : ProgE C R ε α}

theorem Issues.after {Q : C → Prop} (hx : x.Issues Q) (h : ∀ log c, Q c → P log c) :
    x.IssuesAfter P log := Prog.Issues.after hx h

theorem issuesAfter_pure (a : α) : IssuesAfter P log (pure a : ProgE C R ε α) := trivial

theorem issuesAfter_throw (e : ε) : IssuesAfter P log (throw e : ProgE C R ε α) := trivial

theorem issuesAfter_issue {c : C} {k : R c → Except ε α} (h : P log c) :
    IssuesAfter P log (issue c k) := ⟨h, fun _ => trivial⟩

theorem IssuesAfter.bind {f : α → ProgE C R ε β} (hx : x.IssuesAfter P log)
    (hf : ∀ a l, x.run.Follows l (.pure (.ok a)) → (f a).IssuesAfter P (log ++ l)) :
    (x >>= f).IssuesAfter P log := by
  unfold IssuesAfter
  rw [run_bind_eq]
  refine Prog.IssuesAfter.bind hx fun r l h => ?_
  cases r with
  | ok a => exact hf a l h
  | error e => trivial

theorem IssuesAfter.tryCatch {handle : ε → ProgE C R ε α} (hx : x.IssuesAfter P log)
    (hh : ∀ e l, x.run.Follows l (.pure (.error e)) → (handle e).IssuesAfter P (log ++ l)) :
    (tryCatch x handle).IssuesAfter P log := by
  unfold IssuesAfter
  rw [run_tryCatch_eq]
  refine Prog.IssuesAfter.bind hx fun r l h => ?_
  cases r with
  | ok a => trivial
  | error e => exact hh e l h

theorem IssuesAfter.ensuring {fin : ProgE C R ε Unit} (hx : x.IssuesAfter P log)
    (hf : ∀ l, fin.IssuesAfter P (log ++ l)) : (ensuring x fin).IssuesAfter P log :=
  Prog.IssuesAfter.bind hx fun _ l _ => IssuesAfter.bind (hf l) fun _ _ _ => trivial

theorem IssuesAfter.map {f : α → β} (hx : x.IssuesAfter P log) : (f <$> x).IssuesAfter P log :=
  IssuesAfter.bind hx fun a _ _ => issuesAfter_pure (f a)

end IssuesAfter

/-! Errors -/

/-- Whatever the commands are answered, an error that the program throws satisfies `P`. -/
def Throws (P : ε → Prop) (x : ProgE C R ε α) : Prop :=
  ∀ log e, x.run.Follows log (.pure (.error e)) → P e

variable {T : ε → Prop}

theorem Throws.mono {T' : ε → Prop} (hx : x.Throws T) (h : ∀ e, T e → T' e) : x.Throws T' :=
  fun log e hf => h e (hx log e hf)

theorem throws_pure (a : α) : Throws T (pure a : ProgE C R ε α) := by
  intro log e h
  cases h

theorem throws_throw {e : ε} (h : T e) : Throws T (throw e : ProgE C R ε α) := by
  intro log e' h'
  cases h'
  exact h

theorem throws_issue {c : C} {k : R c → Except ε α} (h : ∀ r e, k r = .error e → T e) :
    Throws T (issue c k) := by
  intro log e h'
  cases h' with
  | @step _ _ r _ _ h' => exact h r e (Prog.pure.inj h'.of_pure.2).symm

theorem Throws.bind {f : α → ProgE C R ε β} (hx : x.Throws T) (hf : ∀ a, (f a).Throws T) :
    (x >>= f).Throws T := by
  intro log e h
  rw [run_bind_eq] at h
  obtain ⟨l₁, r, l₂, -, h₁, h₂⟩ := h.of_bind
  cases r with
  | ok a => exact hf a l₂ e h₂
  | error e' =>
    cases h₂
    exact hx l₁ e h₁

theorem Throws.tryCatch {handle : ε → ProgE C R ε α} (hh : ∀ e, (handle e).Throws T) :
    (tryCatch x handle).Throws T := by
  intro log e h
  rw [run_tryCatch_eq] at h
  obtain ⟨l₁, r, l₂, -, h₁, h₂⟩ := h.of_bind
  cases r with
  | ok a => cases h₂
  | error e' => exact hh e' l₂ e h₂

end ProgE
end Awaiting
