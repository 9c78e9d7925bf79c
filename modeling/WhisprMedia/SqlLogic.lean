import Mathlib.Tactic.Common

/-! SQL's three-valued logic over nullable values, and row security: a table whose rows are
filtered by the policies that statements create and drop. -/
namespace Sql

/-- The value of a condition; `none` is NULL. -/
abbrev Truth := Option Bool

def Truth.or : Truth → Truth → Truth
  | some true, _ | _, some true => some true
  | some false, some false => some false
  | _, _ => none

def Truth.and : Truth → Truth → Truth
  | some false, _ | _, some false => some false
  | some true, some true => some true
  | _, _ => none

section Operators
variable {α : Type} [DecidableEq α]

/-- `a = b`. -/
def eq : Option α → Option α → Truth
  | some a, some b => some (a = b)
  | _, _ => none

def isNotNull (a : Option α) : Truth := some a.isSome

/-- `a IN (l)`. -/
def isIn (a : Option α) (l : List (Option α)) : Truth :=
  l.foldr (fun b t => Truth.or (eq a b) t) (some false)

/-- `a = ANY(array)`. -/
def eqAny (a : Option α) (array : Option (List (Option α))) : Truth := array.bind (isIn a)

theorem or_eq_true {s t : Truth} : Truth.or s t = some true ↔ s = some true ∨ t = some true := by
  rcases s with _ | _ | _ <;> rcases t with _ | _ | _ <;> simp [Truth.or]

theorem and_eq_true {s t : Truth} : Truth.and s t = some true ↔ s = some true ∧ t = some true := by
  rcases s with _ | _ | _ <;> rcases t with _ | _ | _ <;> simp [Truth.and]

theorem eq_eq_true {a b : Option α} : eq a b = some true ↔ ∃ x, a = some x ∧ b = some x := by
  cases a <;> cases b <;> simp [eq, eq_comm]

theorem isIn_eq_true {a : Option α} {l : List (Option α)} :
    isIn a l = some true ↔ ∃ x, a = some x ∧ some x ∈ l := by
  induction l with
  | nil => simp [isIn]
  | cons b l ih =>
    have hstep : isIn a (b :: l) = Truth.or (eq a b) (isIn a l) := rfl
    rw [hstep, or_eq_true, eq_eq_true, ih]
    constructor
    · rintro (⟨x, ha, hb⟩ | ⟨x, ha, hx⟩)
      · exact ⟨x, ha, hb ▸ List.mem_cons_self⟩
      · exact ⟨x, ha, List.mem_cons_of_mem _ hx⟩
    · rintro ⟨x, ha, hx⟩
      rcases List.mem_cons.mp hx with hb | hx
      · exact Or.inl ⟨x, ha, hb.symm⟩
      · exact Or.inr ⟨x, ha, hx⟩

theorem eqAny_eq_true {a : Option α} {array : Option (List (Option α))} :
    eqAny a array = some true ↔ ∃ x l, a = some x ∧ array = some l ∧ some x ∈ l := by
  cases array with
  | none => simp [eqAny]
  | some l => simp [eqAny, isIn_eq_true]

end Operators

/-! Row security -/

/-- The commands a policy is FOR. -/
inductive PolicyCommand where
  | all
  | select
  | insert
  | update
  | delete
  deriving DecidableEq

/-- A permissive policy: its name, its FOR clause and its USING condition. -/
structure Policy (ρ : Type) where
  name : String
  command : PolicyCommand
  using_ : ρ → Truth

/-- The statements of a migration that matter to row security. -/
inductive Statement (ρ : Type) where
  | enableRowLevelSecurity
  | createPolicy (p : Policy ρ)
  | dropPolicyIfExists (name : String)

/-- A table's row security. -/
structure RowSecurity (ρ : Type) where
  enabled : Bool
  policies : List (Policy ρ)

variable {ρ : Type}

def RowSecurity.none : RowSecurity ρ := ⟨false, []⟩

/-- A name that is taken makes CREATE POLICY fail. -/
def RowSecurity.apply (t : RowSecurity ρ) : Statement ρ → Option (RowSecurity ρ)
  | .enableRowLevelSecurity => some { t with enabled := true }
  | .createPolicy p =>
    if t.policies.any fun q => q.name = p.name then Option.none
    else some { t with policies := t.policies ++ [p] }
  | .dropPolicyIfExists name => some { t with policies := t.policies.filter fun q => q.name ≠ name }

/-- The statements one after the other. -/
def RowSecurity.run (t : RowSecurity ρ) (statements : List (Statement ρ)) :
    Option (RowSecurity ρ) := statements.foldlM RowSecurity.apply t

/-- Whether a role that is subject to row security sees a row: the conditions of all policies that
apply to SELECT are OR-ed, and the row is visible if the result is TRUE. -/
def RowSecurity.visible (t : RowSecurity ρ) (row : ρ) : Bool :=
  !t.enabled || (((t.policies.filter fun p => p.command = .all ∨ p.command = .select).foldr
    (fun p s => Truth.or (p.using_ row) s) (some false)) = some true)

theorem or_policies_eq_true {ps : List (Policy ρ)} {row : ρ} :
    ps.foldr (fun p s => Truth.or (p.using_ row) s) (some false) = some true ↔
      ∃ p ∈ ps, p.using_ row = some true := by
  induction ps with
  | nil => simp
  | cons p ps ih => rw [List.foldr_cons, or_eq_true, ih]; simp

/-- A row is visible through some policy. -/
theorem RowSecurity.visible_iff {t : RowSecurity ρ} (h : t.enabled = true) {row : ρ} :
    t.visible row = true ↔ ∃ p ∈ t.policies, (p.command = .all ∨ p.command = .select) ∧
      p.using_ row = some true := by
  simp only [visible, h, Bool.not_true, Bool.false_or, decide_eq_true_eq, or_policies_eq_true,
    List.mem_filter, and_assoc]

/-- Whether an UPDATE that looks for a row reaches it: its WHERE clause has to see the row, and the
policies that apply to UPDATE have to admit it. -/
def RowSecurity.updatable (t : RowSecurity ρ) (row : ρ) : Bool :=
  t.visible row && (!t.enabled ||
    (((t.policies.filter fun p => p.command = .all ∨ p.command = .update).foldr
      (fun p s => Truth.or (p.using_ row) s) (some false)) = some true))

theorem RowSecurity.updatable_iff {t : RowSecurity ρ} (h : t.enabled = true) {row : ρ} :
    t.updatable row = true ↔ t.visible row = true ∧ ∃ p ∈ t.policies,
      (p.command = .all ∨ p.command = .update) ∧ p.using_ row = some true := by
  simp only [updatable, h, Bool.not_true, Bool.false_or, Bool.and_eq_true, decide_eq_true_eq,
    or_policies_eq_true, List.mem_filter, and_assoc]

end Sql
