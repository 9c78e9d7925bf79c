import Mathlib.Algebra.BigOperators.Group.List.Basic
import Mathlib.Data.List.Nodup
import Mathlib.Tactic.Abel

/-! Tables with a primary key. The key is unique by construction, so a lookup, an insertion and
an update of one row have their usual equations. -/
namespace Keyed

/-- The rows of a table, in the order of their insertion. -/
structure Table {κ ρ : Type} (key : ρ → κ) where
  rows : List ρ
  nodup : (rows.map key).Nodup

namespace Table

variable {κ ρ : Type} [DecidableEq κ] {key : ρ → κ}

def empty : Table key := ⟨[], List.nodup_nil⟩

def get (t : Table key) (k : κ) : Option ρ := t.rows.find? fun r => key r = k

/-- Apply `f` to the row with key `k`, if there is one. -/
def modify (t : Table key) (k : κ) (f : ρ → ρ) (hf : ∀ r, key (f r) = key r) : Table key where
  rows := t.rows.map fun r => if key r = k then f r else r
  nodup := by
    have hk : (key ∘ fun r => if key r = k then f r else r) = key := by
      funext r
      simp only [Function.comp_apply]
      split
      · exact hf r
      · rfl
    rw [List.map_map, hk]
    exact t.nodup

/-- Apply `f` to every row. -/
def mapRows (t : Table key) (f : ρ → ρ) (hf : ∀ r, key (f r) = key r) : Table key where
  rows := t.rows.map f
  nodup := by
    rw [List.map_map, show key ∘ f = key from funext hf]
    exact t.nodup

/-- Add a row, unless its key is taken. -/
def insert (t : Table key) (r : ρ) : Table key :=
  if h : key r ∈ t.rows.map key then t
  else ⟨t.rows ++ [r], by
    rw [List.map_append, List.nodup_append]
    refine ⟨t.nodup, List.nodup_singleton _, ?_⟩
    intro a ha b hb hab
    rw [hab, List.mem_singleton.mp hb] at ha
    exact h ha⟩

variable {t : Table key} {k k' : κ} {r : ρ} {f : ρ → ρ} {hf : ∀ r, key (f r) = key r}

theorem get_some : t.get k = some r ↔ r ∈ t.rows ∧ key r = k := by
  constructor
  · intro h
    exact ⟨List.mem_of_find?_eq_some h, by simpa using List.find?_some h⟩
  · rintro ⟨hr, hk⟩
    cases h : t.get k with
    | none => exact absurd hk (by simpa using List.find?_eq_none.mp h r hr)
    | some r' =>
      have hk' : key r' = k := by simpa using List.find?_some h
      rw [List.inj_on_of_nodup_map t.nodup (List.mem_of_find?_eq_some h) hr (hk'.trans hk.symm)]

theorem get_none : t.get k = none ↔ k ∉ t.rows.map key := by
  simp only [get, List.find?_eq_none, decide_eq_true_eq, List.mem_map, not_exists, not_and]

theorem get_key (h : r ∈ t.rows) : t.get (key r) = some r := get_some.mpr ⟨h, rfl⟩

@[simp] theorem get_empty : (empty : Table key).get k = none := rfl

theorem get_modify : (t.modify k f hf).get k' = if k' = k then (t.get k).map f else t.get k' := by
  have hk (r : ρ) : key (if key r = k then f r else r) = key r := by
    split
    · exact hf r
    · rfl
  simp only [get, modify, List.find?_map, Function.comp_def, hk]
  cases hg : t.rows.find? fun r => key r = k' with
  | none =>
    split
    · next h => rw [← h, hg]; rfl
    · rfl
  | some r =>
    have hr : key r = k' := by simpa using List.find?_some hg
    split
    · next h => simp [← h, hg, hr]
    · next h => simp [hr, h]

theorem get_mapRows : (t.mapRows f hf).get k = (t.get k).map f := by
  simp only [get, mapRows, List.find?_map, Function.comp_def, hf]

theorem get_insert (h : t.get (key r) = none) :
    (t.insert r).get k = if k = key r then some r else t.get k := by
  have hn := get_none.mp h
  simp only [insert, hn, ↓reduceDIte, get, List.find?_append, List.find?_singleton,
    decide_eq_true_eq]
  by_cases hk : key r = k
  · subst hk
    rw [show t.rows.find? (fun r' => key r' = key r) = none from h]
    simp
  · rw [if_neg hk, if_neg (Ne.symm hk), Option.or_none]

theorem rows_insert (h : t.get (key r) = none) : (t.insert r).rows = t.rows ++ [r] := by
  have hn := get_none.mp h
  simp only [insert, hn, ↓reduceDIte]

theorem insert_of_get (h : (t.get (key r)).isSome) : t.insert r = t := by
  have hn : key r ∈ t.rows.map key := by
    by_contra hn
    simp [get_none.mpr hn] at h
  simp only [insert, hn, ↓reduceDIte]

/-- A sum in which one row counts otherwise. -/
theorem sum_override {M : Type} [AddCommGroup M] (v : ρ → M) (a : M) (h : t.get k = some r) :
    (t.rows.map fun x => if key x = k then a else v x).sum = (t.rows.map v).sum - v r + a := by
  obtain ⟨hmem, hk⟩ := get_some.mp h
  obtain ⟨pre, pos, hs⟩ := List.append_of_mem hmem
  have hnd := t.nodup
  rw [hs, List.map_append, List.map_cons, List.nodup_append] at hnd
  obtain ⟨-, hpos, hpre⟩ := hnd
  have hother (l : List ρ) (hl : ∀ x ∈ l, key x ≠ k) :
      (l.map fun x => if key x = k then a else v x) = l.map v :=
    List.map_congr_left fun x hx => by rw [if_neg (hl x hx)]
  have h1 : ∀ x ∈ pre, key x ≠ k := fun x hx =>
    hk ▸ hpre _ (List.mem_map_of_mem hx) _ (List.mem_cons_self)
  have h2 : ∀ x ∈ pos, key x ≠ k := by
    intro x hx he
    have := (List.nodup_cons.mp hpos).1
    exact this (hk ▸ he ▸ List.mem_map_of_mem hx)
  simp only [hs, List.map_append, List.map_cons, List.sum_append, List.sum_cons, hother pre h1,
    hother pos h2, if_pos hk]
  abel

/-- Only the values that can be looked up matter for a sum over the rows. -/
theorem sum_of_get {M : Type} [AddCommMonoid M] {t' : Table key} (v v' : ρ → M)
    (h : ∀ k, (t'.get k).map v' = (t.get k).map v) :
    (t'.rows.map v').sum = (t.rows.map v).sum := by
  have hkeys (t : Table key) (v : ρ → M) :
      t.rows.map v = (t.rows.map key).map fun k => ((t.get k).map v).getD 0 := by
    rw [List.map_map]
    refine List.map_congr_left fun r hr => ?_
    simp [get_key hr]
  have hmem (t : Table key) (v : ρ → M) (k : κ) :
      k ∈ t.rows.map key ↔ ((t.get k).map v).isSome = true := by
    rw [Option.isSome_map]
    by_cases hk : k ∈ t.rows.map key
    · have hsome : t.get k ≠ none := fun hn => get_none.mp hn hk
      simp [hk, Option.isSome_iff_ne_none, hsome]
    · simp [hk, get_none.mpr hk]
  -- the same keys are taken, so the rows come in an order that the sum does not see
  have hperm : (t'.rows.map key).Perm (t.rows.map key) := by
    apply (List.perm_ext_iff_of_nodup t'.nodup t.nodup).mpr
    intro k
    rw [hmem t' v' k, hmem t v k, h k]
  calc (t'.rows.map v').sum
      = ((t'.rows.map key).map fun k => ((t.get k).map v).getD 0).sum := by
        rw [hkeys t' v']
        simp only [h]
    _ = ((t.rows.map key).map fun k => ((t.get k).map v).getD 0).sum := (hperm.map _).sum_eq
    _ = (t.rows.map v).sum := by rw [← hkeys t v]

/-- Tables that differ in one row have sums that differ by what this row counts. -/
theorem sum_step {M : Type} [AddCommGroup M] {t' : Table key} {r' : ρ} (v v' : ρ → M)
    (h : t.get k = some r) (h' : t'.get k = some r')
    (hother : ∀ k', k' ≠ k → (t'.get k').map v' = (t.get k').map v) :
    (t'.rows.map v').sum = (t.rows.map v).sum - v r + v' r' := by
  rw [← sum_override v (v' r') h]
  apply sum_of_get
  intro k'
  by_cases hk : k' = k
  · rw [hk, h, h', Option.map_some, Option.map_some, if_pos (get_some.mp h).2]
  · rw [hother k' hk]
    cases hr : t.get k' with
    | none => rfl
    | some x =>
      have hx : key x ≠ k := by
        rw [(get_some.mp hr).2]
        exact hk
      rw [Option.map_some, Option.map_some, if_neg hx]

/-- An update of one row changes a sum over the rows by that row's difference. -/
theorem sum_modify {M : Type} [AddCommGroup M] (v : ρ → M) (h : t.get k = some r) :
    ((t.modify k f hf).rows.map v).sum = (t.rows.map v).sum - v r + v (f r) := by
  have h' : (t.modify k f hf).get k = some (f r) := by
    rw [get_modify, if_pos rfl, h, Option.map_some]
  refine sum_step v v h h' fun k' hk => ?_
  rw [get_modify, if_neg hk]

end Table
end Keyed
