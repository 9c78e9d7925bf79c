import Mathlib.Data.Int.Notation
import Mathlib.Data.List.Nodup
import Mathlib.Data.List.Flatten
import Mathlib.Tactic.Common

/-! Pages that are cut out of separate answers of one ordered query. The answers agree on the keys,
in descending order, but not on the order of rows whose keys are equal. -/
namespace Paging

variable {α : Type} {key : α → ℤ} {rows l l' : List α} {limit m b : ℕ}

/-- An answer of the query: the rows, the largest keys first. -/
structure Answer (key : α → ℤ) (rows l : List α) : Prop where
  perm : l.Perm rows
  sorted : l.Pairwise fun x y => key y ≤ key x

/-- The keys of every answer. -/
def keys (key : α → ℤ) (rows : List α) : List ℤ :=
  (rows.map key).mergeSort fun k k' => k' ≤ k

/-- No two rows with the same key lie on different sides of a page boundary. -/
def NoTieAcross (key : α → ℤ) (rows : List α) (limit : ℕ) : Prop :=
  ∀ i, 0 < i → i * limit < rows.length →
    (keys key rows)[i * limit - 1]? ≠ (keys key rows)[i * limit]?

/-- The first `m` pages, page `i` cut out of answer `i`. -/
def pages (answers : ℕ → List α) (limit m : ℕ) : List α :=
  (List.range m).flatMap fun i => ((answers i).drop (i * limit)).take limit

theorem keys_sorted (key : α → ℤ) (rows : List α) : (keys key rows).Pairwise fun k k' => k' ≤ k := by
  have hsorted : (keys key rows).Pairwise fun k k' => decide (k' ≤ k) := by
    apply List.pairwise_mergeSort
    · intro a b c hab hbc
      simp only [decide_eq_true_eq] at *
      omega
    · intro a b
      simp only [Bool.or_eq_true, decide_eq_true_eq]
      omega
  simp only [decide_eq_true_eq] at hsorted
  exact hsorted

theorem length_keys (key : α → ℤ) (rows : List α) : (keys key rows).length = rows.length := by
  rw [keys, List.length_mergeSort, List.length_map]

theorem Answer.keys_eq (h : Answer key rows l) : l.map key = keys key rows := by
  have hperm : (l.map key).Perm (keys key rows) :=
    (h.perm.map key).trans (List.mergeSort_perm _ _).symm
  have hsorted : (l.map key).Pairwise fun k k' => k' ≤ k := by
    rw [List.pairwise_map]
    exact h.sorted
  refine hperm.eq_of_pairwise (fun a b _ _ hab hba => ?_) hsorted (keys_sorted key rows)
  omega

theorem Answer.length_eq (h : Answer key rows l) : l.length = rows.length := h.perm.length_eq

/-! Prefixes -/

/-- A threshold between the keys before and behind place `b`. -/
def CutAt (ks : List ℤ) (b : ℕ) (c : ℤ) : Prop :=
  (∀ k ∈ ks.take b, c ≤ k) ∧ ∀ k ∈ ks.drop b, k < c

/-- Descending keys that differ at a place have a threshold there. -/
theorem exists_cut {ks : List ℤ} (hs : ks.Pairwise fun k k' => k' ≤ k) (hb : 0 < b)
    (hlt : b < ks.length) (hne : ks[b-1]? ≠ ks[b]?) : ∃ c, CutAt ks b c := by
  have hsorted {i j : ℕ} (hij : i ≤ j) (hj : j < ks.length) : ks[j] ≤ ks[i] := by
    rcases Nat.eq_or_lt_of_le hij with rfl | hij
    · exact Int.le_refl _
    · exact List.pairwise_iff_getElem.mp hs i j (by omega) hj hij
  have hstep : ks[b] < ks[b-1] := by
    have hle := hsorted (Nat.sub_le b 1) hlt
    rw [List.getElem?_eq_getElem hlt, List.getElem?_eq_getElem (by omega)] at hne
    have hne' : ks[b-1] ≠ ks[b] := fun h => hne (congrArg some h)
    omega
  refine ⟨ks[b-1], fun k hk => ?_, fun k hk => ?_⟩
  · obtain ⟨i, hi, rfl⟩ := List.mem_iff_getElem.mp hk
    rw [List.length_take] at hi
    rw [List.getElem_take]
    exact hsorted (by omega) (by omega)
  · obtain ⟨i, hi, rfl⟩ := List.mem_iff_getElem.mp hk
    rw [List.length_drop] at hi
    rw [List.getElem_drop]
    have hle := hsorted (Nat.le_add_right b i) (by omega)
    omega

/-- Up to a threshold an answer holds the rows whose keys reach it. -/
theorem Answer.take_eq_filter (h : Answer key rows l) {c : ℤ} (hc : CutAt (keys key rows) b c) :
    l.take b = l.filter fun x => c ≤ key x := by
  rw [← h.keys_eq] at hc
  have hbefore : (l.take b).filter (fun x => decide (c ≤ key x)) = l.take b := by
    apply List.filter_eq_self.mpr
    intro x hx
    apply decide_eq_true
    exact hc.1 _ (List.map_take ▸ List.mem_map_of_mem hx)
  have hbehind : (l.drop b).filter (fun x => decide (c ≤ key x)) = [] := by
    apply List.filter_eq_nil_iff.mpr
    intro x hx hle
    have hlt := hc.2 _ (List.map_drop ▸ List.mem_map_of_mem hx)
    have hle' := of_decide_eq_true hle
    omega
  calc l.take b = (l.take b).filter (fun x => decide (c ≤ key x)) ++
        (l.drop b).filter (fun x => decide (c ≤ key x)) := by rw [hbefore, hbehind, List.append_nil]
    _ = l.filter fun x => decide (c ≤ key x) := by rw [← List.filter_append, List.take_append_drop]

/-- Two answers begin with the same rows, up to a place where the keys differ. -/
theorem Answer.take_perm (h : Answer key rows l) (h' : Answer key rows l') (hb : 0 < b →
    b < rows.length → (keys key rows)[b-1]? ≠ (keys key rows)[b]?) : (l.take b).Perm (l'.take b) := by
  by_cases h0 : b = 0
  · rw [h0, List.take_zero, List.take_zero]
  by_cases hlt : b < rows.length
  · obtain ⟨c, hc⟩ := exists_cut (keys_sorted key rows) (Nat.pos_of_ne_zero h0)
      (by rwa [length_keys]) (hb (Nat.pos_of_ne_zero h0) hlt)
    rw [h.take_eq_filter hc, h'.take_eq_filter hc]
    exact (h.perm.trans h'.perm.symm).filter _
  · rw [List.take_of_length_le (by rw [h.length_eq]; omega),
      List.take_of_length_le (by rw [h'.length_eq]; omega)]
    exact h.perm.trans h'.perm.symm

/-! Pages -/

theorem pages_succ (answers : ℕ → List α) (limit m : ℕ) : pages answers limit (m+1) =
    pages answers limit m ++ ((answers m).drop (m * limit)).take limit := by
  rw [pages, List.range_succ, List.flatMap_append, List.flatMap_singleton]
  rfl

theorem take_append_slice (l : List α) (m limit : ℕ) :
    l.take (m * limit) ++ (l.drop (m * limit)).take limit = l.take ((m+1) * limit) := by
  rw [Nat.succ_mul, List.take_add]

/-- The keys of the pages do not depend on the answers. -/
theorem map_key_pages {answers : ℕ → List α} (h : ∀ i, Answer key rows (answers i)) (m : ℕ) :
    (pages answers limit m).map key = (keys key rows).take (m * limit) := by
  induction m with
  | zero => rw [Nat.zero_mul, List.take_zero]; rfl
  | succ m ih =>
    rw [pages_succ, List.map_append, ih, List.map_take, List.map_drop, (h m).keys_eq,
      take_append_slice]

/-- Pages come in the order of the keys, ties or not. -/
theorem pages_sorted {answers : ℕ → List α} (h : ∀ i, Answer key rows (answers i)) (m : ℕ) :
    (pages answers limit m).Pairwise fun x y => key y ≤ key x := by
  rw [← List.pairwise_map (R := fun k k' : ℤ => k' ≤ k), map_key_pages h]
  exact (keys_sorted key rows).sublist (List.take_sublist _ _)

/-- Without ties across boundaries, the first pages hold what any one answer begins with. -/
theorem pages_perm_take {answers : ℕ → List α} (h : ∀ i, Answer key rows (answers i))
    (hties : NoTieAcross key rows limit) (hl : Answer key rows l) (m : ℕ) :
    (pages answers limit m).Perm (l.take (m * limit)) := by
  induction m generalizing l with
  | zero => rw [Nat.zero_mul, List.take_zero]; rfl
  | succ m ih =>
    -- the pages so far begin the answer that the next page is cut out of
    have hnext : (pages answers limit (m+1)).Perm ((answers m).take ((m+1) * limit)) := by
      rw [pages_succ, ← take_append_slice]
      exact (ih (h m)).append_right _
    refine hnext.trans ((h m).take_perm hl fun hpos hlt => ?_)
    exact hties (m+1) (Nat.succ_pos m) hlt

/-- Enough pages hold every row once. -/
theorem pages_perm {answers : ℕ → List α} (h : ∀ i, Answer key rows (answers i))
    (hties : NoTieAcross key rows limit) (hm : rows.length ≤ m * limit) :
    (pages answers limit m).Perm rows := by
  have hperm := pages_perm_take h hties (h 0) m
  rw [List.take_of_length_le (by rw [(h 0).length_eq]; exact hm)] at hperm
  exact hperm.trans (h 0).perm

/-! Ties -/

/-- An answer with a tie at place `b`, beside the same answer with the tie the other way. -/
theorem Answer.swap {x y : α} {before behind : List α}
    (h : Answer key rows (before ++ x :: y :: behind)) (hxy : key x = key y) :
    Answer key rows (before ++ y :: x :: behind) := by
  refine ⟨((List.Perm.swap x y behind).append_left before).trans h.perm, ?_⟩
  have hs := h.sorted
  simp only [List.pairwise_append, List.pairwise_cons, List.mem_cons, forall_eq_or_imp] at hs ⊢
  obtain ⟨hbefore, ⟨⟨-, hx⟩, hy, hbehind⟩, hcross⟩ := hs
  refine ⟨hbefore, ⟨⟨by omega, hy⟩, hx, hbehind⟩, fun z hz => ?_⟩
  obtain ⟨hzx, hzy, hrest⟩ := hcross z hz
  exact ⟨hzy, hzx, hrest⟩

/-- A row that ends one page and begins a later one. -/
theorem not_nodup_pages {answers : ℕ → List α} {x : α} {i j : ℕ} (hij : i < j) (hj : j < m)
    (hi : x ∈ ((answers i).drop (i * limit)).take limit)
    (hx : x ∈ ((answers j).drop (j * limit)).take limit) : ¬ (pages answers limit m).Nodup := by
  intro hnodup
  have hdisjoint := (List.nodup_flatMap.mp hnodup).2
  have hij' := List.pairwise_iff_getElem.mp hdisjoint i j (by rw [List.length_range]; omega)
    (by rw [List.length_range]; exact hj) hij
  rw [List.getElem_range, List.getElem_range] at hij'
  exact hij' hi hx

/-- Where a tie lies across a boundary, the answers may put one row on both pages. -/
theorem exists_repeated (hl : Answer key rows l) (hlimit : 0 < limit)
    (hties : ¬ NoTieAcross key rows limit) (hm : rows.length ≤ m * limit) :
    ∃ k l', Answer key rows l' ∧
      ¬ (pages (fun i => if i < k then l else l') limit m).Nodup := by
  simp only [NoTieAcross, not_forall, not_not] at hties
  obtain ⟨k, hk, hlt, htie⟩ := hties
  have hlen : k * limit < l.length := by rw [hl.length_eq]; exact hlt
  have hpos : 0 < k * limit := Nat.mul_pos hk hlimit
  have hxy : key (l[k * limit - 1]) = key (l[k * limit]) := by
    rw [← hl.keys_eq, List.getElem?_map, List.getElem?_map, List.getElem?_eq_getElem hlen,
      List.getElem?_eq_getElem (by omega)] at htie
    exact Option.some.inj htie
  have hsplit : l = l.take (k * limit - 1) ++ l[k * limit - 1] :: l[k * limit] ::
      l.drop (k * limit + 1) := by
    have hone : k * limit - 1 + 1 = k * limit := by omega
    have hdrop : l.drop (k * limit - 1) = l[k * limit - 1] :: l[k * limit] ::
        l.drop (k * limit + 1) := by
      rw [List.drop_eq_getElem_cons (by omega), hone, List.drop_eq_getElem_cons hlen]
    rw [← hdrop, List.take_append_drop]
  generalize hx : l[k * limit - 1] = x at hxy hsplit
  generalize l[k * limit] = y at hxy hsplit
  rw [hsplit] at hl
  refine ⟨k, _, hl.swap hxy, ?_⟩
  have hbefore : (l.take (k * limit - 1)).length = k * limit - 1 := by
    rw [List.length_take]
    omega
  -- the row `x` ends page `k-1` of the one answer and begins page `k` of the other
  have hkm : k < m := by
    by_contra hge
    have hle : m * limit ≤ k * limit := Nat.mul_le_mul_right _ (by omega)
    omega
  have hstart : (k-1) * limit = k * limit - limit := by rw [Nat.sub_mul, Nat.one_mul]
  have hle : limit ≤ k * limit := Nat.le_mul_of_pos_left _ hk
  refine not_nodup_pages (x := x) (Nat.sub_lt hk Nat.one_pos) hkm ?_ ?_
  · rw [if_pos (Nat.sub_lt hk Nat.one_pos), List.mem_iff_getElem?]
    refine ⟨limit - 1, ?_⟩
    rw [List.getElem?_take_of_lt (by omega), List.getElem?_drop, hstart,
      show k * limit - limit + (limit - 1) = k * limit - 1 by omega,
      List.getElem?_eq_getElem (by omega), hx]
  · rw [if_neg (Nat.lt_irrefl k), List.mem_iff_getElem?]
    refine ⟨0, ?_⟩
    rw [List.getElem?_take_of_lt hlimit, List.getElem?_drop,
      List.getElem?_append_right (by omega), hbefore,
      show k * limit + 0 - (k * limit - 1) = 1 by omega]
    rfl

end Paging
