import Mathlib.Data.List.Nodup
import Mathlib.Data.Nat.Notation

/-! Statements of transactions that run side by side under READ COMMITTED, on a table with a
unique key. A statement sees the rows that are committed when it runs and the writes of its own
transaction. It waits for a row that another transaction has written and not yet committed. -/
namespace ReadCommitted

/-- What a transaction has written and not yet committed. -/
structure Writes (ρ : Type) where
  inserted : List ρ
  /-- The new versions of committed rows. -/
  updated : List ρ
  deriving DecidableEq, Repr

variable {κ ρ : Type} [DecidableEq κ]

namespace Writes

def empty : Writes ρ := ⟨[], []⟩

variable (key : ρ → κ) (w : Writes ρ)

/-- The version of a committed row that the transaction sees. -/
def version (r : ρ) : ρ := (w.updated.find? fun r' => key r' = key r).getD r

/-- The transaction has inserted a row with the key. -/
def inserts (k : κ) : Bool := w.inserted.any fun r => key r = k

/-- The transaction has updated a row with the key, and keeps its lock. -/
def locks (k : κ) : Bool := w.updated.any fun r => key r = k

end Writes

section Statements
variable (key : ρ → κ) (rows : List ρ) (own : Writes ρ) (others : List (Writes ρ))

/-- The rows a transaction sees; a commit makes them the committed rows. -/
def view : List ρ := rows.map (own.version key) ++ own.inserted

/-- `SELECT … WHERE key = k`. -/
def lookup (k : κ) : Option ρ := (view key rows own).find? fun r => key r = k

/-- `INSERT … ON CONFLICT DO NOTHING`; `none` while it waits. -/
def insertOrIgnore (r : ρ) : Option (Writes ρ) :=
  if (lookup key rows own (key r)).isSome then some own
  else if others.any fun w => w.inserts key (key r) then none
  else some { own with inserted := own.inserted ++ [r] }

/-- `UPDATE … WHERE key = k`, with the number of rows it affects; `none` while it waits. -/
def update (k : κ) (f : ρ → ρ) : Option (ℕ × Writes ρ) :=
  if others.any fun w => w.locks key k then none
  else some ((view key rows own).countP fun r => key r = k,
    { inserted := own.inserted.map fun r => if key r = k then f r else r
      updated := (own.updated.filter fun r => key r ≠ k) ++
        (rows.filter fun r => key r = k).map fun r => f (own.version key r) })

end Statements

section Views
variable {key : ρ → κ} {rows : List ρ} {w : Writes ρ}

theorem view_empty : view key rows Writes.empty = rows := by
  have hid : (Writes.empty : Writes ρ).version key = id := rfl
  calc view key rows Writes.empty = rows.map id ++ [] := by rw [view, hid]; rfl
    _ = rows := by rw [List.map_id, List.append_nil]

theorem key_version (r : ρ) : key (w.version key r) = key r := by
  simp only [Writes.version]
  cases hf : w.updated.find? fun r' => key r' = key r with
  | none => rfl
  | some r' =>
    have hkey := List.find?_some hf
    exact of_decide_eq_true hkey

theorem version_of_not_locks {r : ρ} (h : w.locks key (key r) = false) : w.version key r = r := by
  have hnone : (w.updated.find? fun r' => key r' = key r) = none := by
    rw [List.find?_eq_none]
    exact List.any_eq_false.mp h
  simp only [Writes.version, hnone, Option.getD_none]

theorem map_key_view : (view key rows w).map key = rows.map key ++ w.inserted.map key := by
  simp only [view, List.map_append, List.map_map]
  congr 1
  apply List.map_congr_left
  intro r _
  exact key_version r

theorem lookup_isSome {k : κ} :
    (lookup key rows w k).isSome ↔ k ∈ (view key rows w).map key := by
  simp only [lookup, List.find?_isSome, List.mem_map, decide_eq_true_eq]

/-- A row that is there before a commit is there after it, in the version it commits. -/
theorem mem_view_of_mem {r : ρ} (h : r ∈ rows) : w.version key r ∈ view key rows w :=
  List.mem_append_left _ (List.mem_map_of_mem h)

theorem mem_keys_view {k : κ} (h : k ∈ rows.map key) : k ∈ (view key rows w).map key := by
  rw [map_key_view]
  exact List.mem_append_left _ h

end Views

/-! The first statement of a transaction -/

section First
variable {key : ρ → κ} {rows : List ρ} {others : List (Writes ρ)} {f : ρ → ρ} {k : κ}
  {p : ℕ × Writes ρ}

theorem filter_key {r : ρ} (h : (rows.map key).Nodup) (hr : r ∈ rows) :
    (rows.filter fun r' => key r' = key r) = [r] := by
  obtain ⟨pre, post, rfl⟩ := List.append_of_mem hr
  rw [List.map_append, List.map_cons, List.nodup_append, List.nodup_cons] at h
  obtain ⟨-, ⟨hpost, -⟩, hpre⟩ := h
  have hpre' : (pre.filter fun r' => key r' = key r) = [] := by
    apply List.filter_eq_nil_iff.mpr
    intro r' hr'
    have hne := hpre (key r') (List.mem_map_of_mem hr') (key r) List.mem_cons_self
    simpa using hne
  have hpost' : (post.filter fun r' => key r' = key r) = [] := by
    apply List.filter_eq_nil_iff.mpr
    intro r' hr' he
    exact hpost (of_decide_eq_true he ▸ List.mem_map_of_mem hr')
  rw [List.filter_append, hpre', List.filter_cons_of_pos (by simp), hpost']
  rfl

theorem update_eq_some (h : update key rows Writes.empty others k f = some p) :
    p = ((rows.filter fun r => key r = k).length, ⟨[], (rows.filter fun r => key r = k).map f⟩) := by
  unfold update at h
  split at h
  · cases h
  · rw [← Option.some.inj h, view_empty, List.countP_eq_length_filter]
    rfl

theorem update_of_mem {r : ρ} (hrows : (rows.map key).Nodup) (hr : r ∈ rows)
    (h : update key rows Writes.empty others (key r) f = some p) : p = (1, ⟨[], [f r]⟩) := by
  rw [update_eq_some h, filter_key hrows hr]
  rfl

theorem update_of_not_mem (hk : k ∉ rows.map key)
    (h : update key rows Writes.empty others k f = some p) : p = (0, Writes.empty) := by
  have hnil : (rows.filter fun r => key r = k) = [] := by
    apply List.filter_eq_nil_iff.mpr
    intro r hr he
    exact hk (of_decide_eq_true he ▸ List.mem_map_of_mem hr)
  rw [update_eq_some h, hnil]
  rfl

/-- The rows after the commit of one update. -/
theorem view_update {r : ρ} (hrows : (rows.map key).Nodup) (hr : r ∈ rows)
    (hf : ∀ r, key (f r) = key r) :
    view key rows ⟨[], [f r]⟩ = rows.map fun r' => if key r' = key r then f r' else r' := by
  rw [view, List.append_nil]
  apply List.map_congr_left
  intro r' hr'
  simp only [Writes.version, List.find?_singleton, hf]
  by_cases hk : key r = key r'
  · obtain rfl := List.inj_on_of_nodup_map hrows hr hr' hk
    simp
  · have hk' : ¬ key r' = key r := fun h => hk h.symm
    simp [hk, hk']

end First

/-! Several open transactions -/

/-- No row is written by both. -/
def Apart (key : ρ → κ) (w w' : Writes ρ) : Prop :=
  ∀ k, ¬ (w.inserts key k ∧ w'.inserts key k) ∧ ¬ (w.locks key k ∧ w'.locks key k)

theorem Apart.symm {key : ρ → κ} {w w' : Writes ρ} (h : Apart key w w') : Apart key w' w :=
  fun k => ⟨fun hi => (h k).1 hi.symm, fun hl => (h k).2 hl.symm⟩

/-- Whichever of the transactions `ws` commits, the keys stay unique and no update of another is
lost. -/
structure Consistent (key : ρ → κ) (rows : List ρ) (ws : List (Writes ρ)) : Prop where
  rows_nodup : (rows.map key).Nodup
  views_nodup : ∀ w ∈ ws, ((view key rows w).map key).Nodup
  apart : ws.Pairwise (Apart key)

namespace Consistent
variable {key : ρ → κ} {rows : List ρ} {w w' : Writes ρ} {ws : List (Writes ρ)}

theorem of_nodup (h : (rows.map key).Nodup) : Consistent key rows [] where
  rows_nodup := h
  views_nodup _ hw := absurd hw List.not_mem_nil
  apart := List.Pairwise.nil

/-- The order of the transactions does not matter. -/
theorem middle {pre post : List (Writes ρ)} :
    Consistent key rows (pre ++ w :: post) ↔ Consistent key rows (w :: (pre ++ post)) := by
  have hmem (v : Writes ρ) : v ∈ pre ++ w :: post ↔ v ∈ w :: (pre ++ post) :=
    List.perm_middle.mem_iff
  have hpair : (pre ++ w :: post).Pairwise (Apart key) ↔ (w :: (pre ++ post)).Pairwise (Apart key) :=
    List.pairwise_middle fun {_ _} h => h.symm
  constructor
  · intro h
    exact ⟨h.rows_nodup, fun v hv => h.views_nodup v ((hmem v).mpr hv), hpair.mp h.apart⟩
  · intro h
    exact ⟨h.rows_nodup, fun v hv => h.views_nodup v ((hmem v).mp hv), hpair.mpr h.apart⟩

/-- A transaction that ends without a commit leaves nothing behind. -/
theorem rollback (h : Consistent key rows (w :: ws)) : Consistent key rows ws where
  rows_nodup := h.rows_nodup
  views_nodup v hv := h.views_nodup v (List.mem_cons_of_mem w hv)
  apart := h.apart.of_cons

theorem replace (h : Consistent key rows (w :: ws)) (hv : ((view key rows w').map key).Nodup)
    (hw : ∀ v ∈ ws, Apart key w' v) : Consistent key rows (w' :: ws) where
  rows_nodup := h.rows_nodup
  views_nodup v hmem := by
    rcases List.mem_cons.mp hmem with rfl | hmem
    · exact hv
    · exact h.views_nodup v (List.mem_cons_of_mem w hmem)
  apart := List.pairwise_cons.mpr ⟨hw, h.apart.of_cons⟩

theorem begin (h : Consistent key rows ws) : Consistent key rows (Writes.empty :: ws) where
  rows_nodup := h.rows_nodup
  views_nodup v hmem := by
    rcases List.mem_cons.mp hmem with rfl | hmem
    · simpa only [view_empty] using h.rows_nodup
    · exact h.views_nodup v hmem
  apart := by
    apply List.pairwise_cons.mpr
    refine ⟨fun v _ k => ⟨?_, ?_⟩, h.apart⟩
    · rintro ⟨hi, -⟩
      exact absurd hi (by simp [Writes.inserts, Writes.empty])
    · rintro ⟨hl, -⟩
      exact absurd hl (by simp [Writes.locks, Writes.empty])

theorem insertOrIgnore {r : ρ} (h : Consistent key rows (w :: ws))
    (hr : insertOrIgnore key rows w ws r = some w') : Consistent key rows (w' :: ws) := by
  unfold ReadCommitted.insertOrIgnore at hr
  split at hr
  · cases hr
    exact h
  · next hnone =>
    split at hr
    · cases hr
    · next hfree =>
      cases hr
      apply h.replace
      · -- no row of the view has the key of the new one
        have hkey : key r ∉ (view key rows w).map key := fun hk => hnone (lookup_isSome.mpr hk)
        have hview := h.views_nodup w List.mem_cons_self
        rw [map_key_view] at hkey hview
        rw [map_key_view, List.map_append, ← List.append_assoc]
        apply List.nodup_append.mpr
        refine ⟨hview, List.nodup_singleton _, ?_⟩
        intro k hk k' hk' he
        rw [List.map_singleton, List.mem_singleton] at hk'
        exact hkey (hk' ▸ he ▸ hk)
      · intro v hv k
        have hapart := (List.pairwise_cons.mp h.apart).1 v hv k
        refine ⟨?_, hapart.2⟩
        rintro ⟨hi, hi'⟩
        simp only [Writes.inserts, List.any_append, List.any_cons, List.any_nil, Bool.or_false,
          Bool.or_eq_true, decide_eq_true_eq] at hi
        rcases hi with hi | rfl
        · exact hapart.1 ⟨hi, hi'⟩
        · -- another transaction that has inserted the key makes the statement wait
          exact hfree (List.any_eq_true.mpr ⟨v, hv, hi'⟩)

theorem update {k : κ} {f : ρ → ρ} {n : ℕ} (hf : ∀ r, key (f r) = key r)
    (h : Consistent key rows (w :: ws)) (hu : update key rows w ws k f = some (n, w')) :
    Consistent key rows (w' :: ws) := by
  unfold ReadCommitted.update at hu
  split at hu
  · cases hu
  · next hfree =>
    cases hu
    have hkeys : (w.inserted.map fun r => if key r = k then f r else r).map key =
        w.inserted.map key := by
      rw [List.map_map]
      apply List.map_congr_left
      intro r _
      simp only [Function.comp_apply]
      split
      · exact hf r
      · rfl
    apply h.replace
    · rw [map_key_view, hkeys, ← map_key_view]
      exact h.views_nodup w List.mem_cons_self
    · intro v hv k'
      have hapart := (List.pairwise_cons.mp h.apart).1 v hv k'
      constructor
      · rintro ⟨hi, hi'⟩
        refine hapart.1 ⟨?_, hi'⟩
        obtain ⟨r, hr, hk⟩ := List.any_eq_true.mp hi
        have hmem : k' ∈ w.inserted.map key := by
          rw [← hkeys]
          exact List.mem_map.mpr ⟨r, hr, of_decide_eq_true hk⟩
        obtain ⟨r', hr', hk'⟩ := List.mem_map.mp hmem
        exact List.any_eq_true.mpr ⟨r', hr', decide_eq_true hk'⟩
      · rintro ⟨hl, hl'⟩
        obtain ⟨r, hr, hk⟩ := List.any_eq_true.mp hl
        rcases List.mem_append.mp hr with hr | hr
        · exact hapart.2 ⟨List.any_eq_true.mpr ⟨r, (List.mem_filter.mp hr).1, hk⟩, hl'⟩
        · -- a lock of another transaction on the key makes the statement wait
          obtain ⟨r', hr', rfl⟩ := List.mem_map.mp hr
          have hk' : key r' = k := of_decide_eq_true (List.mem_filter.mp hr').2
          have hkk : k = k' := by
            calc k = key r' := hk'.symm
              _ = key (w.version key r') := (key_version r').symm
              _ = key (f (w.version key r')) := (hf _).symm
              _ = k' := of_decide_eq_true hk
          exact hfree (List.any_eq_true.mpr ⟨v, hv, hkk ▸ hl'⟩)

/-- The other transactions keep their locks on the rows they have updated. -/
theorem version_of_locked (h : Consistent key rows (w :: ws)) (hw : w' ∈ ws) {r : ρ}
    (hl : w'.locks key (key r)) : w.version key r = r := by
  apply version_of_not_locks
  have hapart := (List.pairwise_cons.mp h.apart).1 w' hw (key r)
  exact Bool.eq_false_iff.mpr fun hl' => hapart.2 ⟨hl', hl⟩

theorem commit (h : Consistent key rows (w :: ws)) : Consistent key (view key rows w) ws where
  rows_nodup := h.views_nodup w List.mem_cons_self
  views_nodup v hv := by
    have hown := h.views_nodup w List.mem_cons_self
    have hother := h.views_nodup v (List.mem_cons_of_mem w hv)
    rw [map_key_view] at hown hother
    rw [map_key_view, map_key_view]
    apply List.nodup_append.mpr
    refine ⟨hown, (List.nodup_append.mp hother).2.1, ?_⟩
    intro k hk k' hk' he
    rcases List.mem_append.mp hk with hk | hk
    · exact (List.nodup_append.mp hother).2.2 k hk k' hk' he
    · -- both transactions would have inserted the key
      have hapart := (List.pairwise_cons.mp h.apart).1 v hv k
      obtain ⟨r, hr, rfl⟩ := List.mem_map.mp hk
      obtain ⟨r', hr', hkey⟩ := List.mem_map.mp hk'
      exact hapart.1 ⟨List.any_eq_true.mpr ⟨r, hr, decide_eq_true rfl⟩,
        List.any_eq_true.mpr ⟨r', hr', decide_eq_true (hkey.trans he.symm)⟩⟩
  apart := h.apart.of_cons

end Consistent

end ReadCommitted
