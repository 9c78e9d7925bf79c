import WhisprMedia.AwaitProgram

/-! What a program can do if its commands are answered as one likes, within what is allowed. This
is the dual of what holds whatever the commands are answered. -/
namespace Awaiting

variable {C : Type} {R : C → Type} {α β ε : Type}

namespace Prog

theorem Follows.bind {p : Prog C R α} {f : α → Prog C R β} {l l' : List (Event C R)} {a : α}
    {q : Prog C R β} (h : p.Follows l (.pure a)) (h' : (f a).Follows l' q) :
    (p >>= f).Follows (l ++ l') q := by
  generalize hp : Prog.pure a = p' at h
  induction h with
  | done p =>
    subst hp
    exact h'
  | step _ ih => exact .step (ih hp)

/-- A sequence comes to the commands of its first part. -/
theorem Follows.bind_step {p : Prog C R α} (f : α → Prog C R β) {l : List (Event C R)} {c : C}
    {k : R c → Prog C R α} (h : p.Follows l (.step c k)) :
    (p >>= f).Follows l (.step c fun r => k r >>= f) := by
  generalize hq : Prog.step c k = q at h
  induction h with
  | done p =>
    subst hq
    exact .done _
  | step _ ih => exact .step (ih hq)

/-- Nothing is asked of a program after a log that rules out every command. -/
theorem issuesAfter_of_forall {P : List (Event C R) → C → Prop} {log : List (Event C R)}
    (p : Prog C R α) (h : ∀ l c, P (log ++ l) c) : IssuesAfter P log p := by
  induction p generalizing log with
  | pure a => trivial
  | step c k ih =>
    refine ⟨by simpa using h [] c, fun r => ih r fun l c' => ?_⟩
    rw [List.append_assoc]
    exact h _ c'

end Prog

namespace ProgE

/-- Allowed answers lead the program to return `a`. -/
def CanReturn (A : Event C R → Prop) (x : ProgE C R ε α) (a : α) : Prop :=
  ∃ log, (∀ e ∈ log, A e) ∧ x.run.Follows log (.pure (.ok a))

/-- Allowed answers lead the program to issue `c`. -/
def CanIssue (A : Event C R → Prop) (x : ProgE C R ε α) (c : C) : Prop :=
  ∃ log k, (∀ e ∈ log, A e) ∧ x.run.Follows log (.step c k)

section
variable {A : Event C R → Prop} {x : ProgE C R ε α} {f : α → ProgE C R ε β} {a : α} {b : β} {c : C}

theorem canReturn_pure : CanReturn A (pure a : ProgE C R ε α) a :=
  ⟨[], fun _ h => absurd h List.not_mem_nil, .done _⟩

theorem canReturn_issue {k : R c → Except ε α} {r : R c} (hA : A ⟨c, r⟩) (hk : k r = .ok a) :
    CanReturn A (issue c k) a := by
  refine ⟨[⟨c, r⟩], fun e he => List.mem_singleton.mp he ▸ hA, ?_⟩
  apply Prog.Follows.step
  rw [hk]
  exact .done _

theorem canIssue_issue {k : R c → Except ε α} : CanIssue A (issue c k) c :=
  ⟨[], _, fun _ h => absurd h List.not_mem_nil, .done _⟩

theorem allowed_append {l l' : List (Event C R)} (h : ∀ e ∈ l, A e) (h' : ∀ e ∈ l', A e) :
    ∀ e ∈ l ++ l', A e := by
  intro e he
  rcases List.mem_append.mp he with he | he
  · exact h e he
  · exact h' e he

theorem CanReturn.bind (hx : CanReturn A x a) (hf : CanReturn A (f a) b) :
    CanReturn A (x >>= f) b := by
  obtain ⟨l, hl, hx⟩ := hx
  obtain ⟨l', hl', hf⟩ := hf
  refine ⟨l ++ l', allowed_append hl hl', ?_⟩
  rw [run_bind_eq]
  exact hx.bind hf

theorem CanReturn.bind_issue (hx : CanReturn A x a) (hf : CanIssue A (f a) c) :
    CanIssue A (x >>= f) c := by
  obtain ⟨l, hl, hx⟩ := hx
  obtain ⟨l', k, hl', hf⟩ := hf
  refine ⟨l ++ l', k, allowed_append hl hl', ?_⟩
  rw [run_bind_eq]
  exact hx.bind hf

theorem CanIssue.bind (hx : CanIssue A x c) : CanIssue A (x >>= f) c := by
  obtain ⟨l, k, hl, hx⟩ := hx
  have hbind : ∃ k', (x >>= f).run.Follows l (.step c k') := by
    rw [run_bind_eq]
    exact ⟨_, hx.bind_step _⟩
  obtain ⟨k', hk'⟩ := hbind
  exact ⟨l, k', hl, hk'⟩

theorem CanIssue.map {f : α → β} (hx : CanIssue A x c) : CanIssue A (f <$> x) c := CanIssue.bind hx

theorem CanReturn.tryCatch {handle : ε → ProgE C R ε α} (hx : CanReturn A x a) :
    CanReturn A (tryCatch x handle) a := by
  obtain ⟨l, hl, hx⟩ := hx
  refine ⟨l ++ [], allowed_append hl fun _ h => absurd h List.not_mem_nil, ?_⟩
  rw [run_tryCatch_eq]
  exact hx.bind (.done _)

theorem CanIssue.ensuring {fin : ProgE C R ε Unit} (hx : CanIssue A x c) :
    CanIssue A (ensuring x fin) c := by
  obtain ⟨l, k, hl, hx⟩ := hx
  exact ⟨l, _, hl, hx.bind_step _⟩

/-- What holds of every command after every log holds of a command that can be issued. -/
theorem IssuesAfter.of_canIssue {P : List (Event C R) → C → Prop} (hx : x.IssuesAfter P [])
    (hc : CanIssue A x c) : ∃ log, (∀ e ∈ log, A e) ∧ P log c := by
  obtain ⟨log, k, hlog, hf⟩ := hc
  have hafter := Prog.IssuesAfter.of_follows hx hf
  exact ⟨log, hlog, hafter.1⟩

end
end ProgE
end Awaiting
