import WhisprMedia.ThreadPool
import Mathlib.Data.List.Perm.Basic

/-! One thread pool seen as another. A thread of the larger system shows as a thread of the smaller
one, or as none as long as it has not got there; each of its commands is a command of the thread it
shows as, or is silent, or is where it gets there. A run of the larger system then shows as a run of
the smaller one. -/
namespace Awaiting

variable {C C' : Type} {R : C → Type} {R' : C' → Type}
  {W W' Call Call' Act Act' Out Out' : Type}

/-- What the command of a thread is for the thread `o` that it shows as. -/
inductive ShowsStep (S : System C R W Call Act Out) (S' : System C' R' W' Call' Act' Out')
    (part : W' → W) (shows : Thread C' R' Call' Out' → Option (Thread C R Call Out) → Prop)
    (w : W') (c : C') (t' : Thread C' R' Call' Out') : Option (Thread C R Call Out) → Prop
  | silent {o} (world : part (S'.exec c w).2 = part w) (forks : S'.forks c = [])
      (thread : shows t' o) : ShowsStep S S' part shows w c t' o
  | enters (x : Call) (world : part (S'.exec c w).2 = part w) (forks : S'.forks c = [])
      (thread : shows t' (some (S.start x))) : ShowsStep S S' part shows w c t' none
  | issues {x : Call} {log : List (Event C R)} {d : C} {k : R d → Prog C R Out}
      (world : part (S'.exec c w).2 = (S.exec d (part w)).2)
      (xs : List (Call' × Call)) (forks' : xs.map Prod.fst = S'.forks c)
      (forks : xs.map Prod.snd = S.forks d)
      (starts : ∀ e ∈ xs, shows (S'.start e.1) (some (S.start e.2)))
      (thread : shows t' (some ⟨x, log ++ [⟨d, (S.exec d (part w)).1⟩],
        k (S.exec d (part w)).1⟩)) :
      ShowsStep S S' part shows w c t' (some ⟨x, log, .step d k⟩)

/-- How the pools of `S'` show as pools of `S`. -/
structure Simulation (S : System C R W Call Act Out) (S' : System C' R' W' Call' Act' Out') where
  part : W' → W
  shows : Thread C' R' Call' Out' → Option (Thread C R Call Out) → Prop
  start : ∀ x', ∃ o, shows (S'.start x') o ∧ ∀ t ∈ o, ∃ x, t = S.start x
  act : ∀ a w, part (S'.act a w) = part w ∨ ∃ b, part (S'.act a w) = S.act b (part w)
  step : ∀ x' log c k o w, shows ⟨x', log, .step c k⟩ o →
    ShowsStep S S' part shows w c ⟨x', log ++ [⟨c, (S'.exec c w).1⟩], k (S'.exec c w).1⟩ o

namespace Simulation

variable {S : System C R W Call Act Out} {S' : System C' R' W' Call' Act' Out'}
  (M : Simulation S S')

/-- The pool `q` shows as `p`, whose threads may stand in another order. -/
def Seen (q : Pool C' R' W' Call' Out') (p : Pool C R W Call Out) : Prop :=
  p.world = M.part q.world ∧ ∃ view : List (Thread C' R' Call' Out' × Option (Thread C R Call Out)),
    view.map Prod.fst = q.threads ∧ (∀ e ∈ view, M.shows e.1 e.2) ∧
      p.threads.Perm (view.filterMap Prod.snd)

variable {M} {q q' : Pool C' R' W' Call' Out'} {p : Pool C R W Call Out}

theorem seen_empty (w : W') : M.Seen ⟨w, []⟩ ⟨M.part w, []⟩ :=
  ⟨rfl, [], rfl, fun _ he => absurd he List.not_mem_nil, .nil⟩

/-- Each thread shows as a thread of the pool that is seen, or as none. -/
theorem Seen.thread (h : M.Seen q p) {t' : Thread C' R' Call' Out'} (ht : t' ∈ q.threads) :
    ∃ o, M.shows t' o ∧ ∀ t ∈ o, t ∈ p.threads := by
  obtain ⟨-, view, hview, hshows, hperm⟩ := h
  rw [← hview] at ht
  obtain ⟨e, he, rfl⟩ := List.mem_map.mp ht
  refine ⟨e.2, hshows e he, fun t hot => hperm.mem_iff.mpr ?_⟩
  exact List.mem_filterMap.mpr ⟨e, he, hot⟩

/-- Each thread that is seen is one that some thread shows as. -/
theorem Seen.origin (h : M.Seen q p) {t : Thread C R Call Out} (ht : t ∈ p.threads) :
    ∃ t' ∈ q.threads, M.shows t' (some t) := by
  obtain ⟨-, view, hview, hshows, hperm⟩ := h
  obtain ⟨e, he, hot⟩ := List.mem_filterMap.mp (hperm.mem_iff.mp ht)
  refine ⟨e.1, hview ▸ List.mem_map_of_mem he, ?_⟩
  rw [← hot]
  exact hshows e he

/-- A call arrives; it shows at once, or later. -/
theorem Seen.call (h : M.Seen q p) (x' : Call') :
    ∃ p', S.Runs (fun _ _ => True) p p' ∧
      M.Seen { q with threads := q.threads ++ [S'.start x'] } p' := by
  obtain ⟨hw, view, hview, hshows, hperm⟩ := h
  obtain ⟨o, ho, hstart⟩ := M.start x'
  have hview' : (view ++ [(S'.start x', o)]).map Prod.fst = q.threads ++ [S'.start x'] := by
    rw [List.map_append, hview, List.map_singleton]
  have hshows' : ∀ e ∈ view ++ [(S'.start x', o)], M.shows e.1 e.2 := by
    intro e he
    rcases List.mem_append.mp he with he | he
    · exact hshows e he
    · obtain rfl := List.mem_singleton.mp he
      exact ho
  cases o with
  | none =>
    refine ⟨p, .refl p, hw, _, hview', hshows', ?_⟩
    rw [List.filterMap_append]
    simpa using hperm
  | some t =>
    obtain ⟨x, rfl⟩ := hstart t rfl
    refine ⟨{ p with threads := p.threads ++ [S.start x] },
      .tail (l := .call x) (.refl p) trivial rfl, hw, _, hview', hshows', ?_⟩
    rw [List.filterMap_append]
    exact hperm.append_right _

/-- One thread issues its command. -/
theorem Seen.step (h : M.Seen q p) {pre post : List (Thread C' R' Call' Out')} {x' : Call'}
    {log : List (Event C' R')} {c : C'} {k : R' c → Prog C' R' Out'}
    (hts : q.threads = pre ++ ⟨x', log, .step c k⟩ :: post) :
    ∃ p', S.Runs (fun _ _ => True) p p' ∧ M.Seen
      ⟨(S'.exec c q.world).2, pre ++ ⟨x', log ++ [⟨c, (S'.exec c q.world).1⟩],
        k (S'.exec c q.world).1⟩ :: post ++ (S'.forks c).map S'.start⟩ p' := by
  obtain ⟨hw, view, hview, hshows, hperm⟩ := h
  rw [hts] at hview
  obtain ⟨v₁, v₂, rfl, hv₁, hv₂⟩ := List.map_eq_append_iff.mp hview
  obtain ⟨⟨t₀, o⟩, v₃, rfl, ht₀, hv₃⟩ := List.map_eq_cons_iff.mp hv₂
  obtain rfl : t₀ = _ := ht₀
  have ho := hshows _ (List.mem_append_right _ List.mem_cons_self)
  rw [List.filterMap_append] at hperm
  -- the other threads show as before, and this one as `o'`, with the threads it has started
  have hothers {t' : Thread C' R' Call' Out'} {o' : Option (Thread C R Call Out)}
      {vs : List (Thread C' R' Call' Out' × Option (Thread C R Call Out))} (ht' : M.shows t' o')
      (hvs : ∀ e ∈ vs, M.shows e.1 e.2) : ∀ e ∈ v₁ ++ (t', o') :: v₃ ++ vs, M.shows e.1 e.2 := by
    intro e he
    simp only [List.mem_append, List.mem_cons] at he
    rcases he with (he | rfl | he) | he
    · exact hshows e (List.mem_append_left _ he)
    · exact ht'
    · exact hshows e (List.mem_append_right _ (List.mem_cons_of_mem _ he))
    · exact hvs e he
  have hfst {t' : Thread C' R' Call' Out'} {o' : Option (Thread C R Call Out)}
      {vs : List (Thread C' R' Call' Out' × Option (Thread C R Call Out))} :
      (v₁ ++ (t', o') :: v₃ ++ vs).map Prod.fst = pre ++ t' :: post ++ vs.map Prod.fst := by
    rw [List.map_append, List.map_append, List.map_cons, hv₁, hv₃]
  have hseen {t' : Thread C' R' Call' Out'} {t : Thread C R Call Out} :
      ((t', some t) :: v₃).filterMap Prod.snd = t :: v₃.filterMap Prod.snd := rfl
  cases M.step x' log c k o q.world ho with
  | silent world forks thread =>
    refine ⟨p, .refl p, hw.trans world.symm, v₁ ++ (_, o) :: v₃ ++ [], ?_, hothers thread ?_, ?_⟩
    · rw [hfst, forks]
      rfl
    · exact fun e he => absurd he List.not_mem_nil
    · rw [List.append_nil, List.filterMap_append]
      exact hperm
  | enters x world forks thread =>
    refine ⟨{ p with threads := p.threads ++ [S.start x] },
      .tail (l := .call x) (.refl p) trivial rfl, hw.trans world.symm,
      v₁ ++ (_, some (S.start x)) :: v₃ ++ [], ?_, hothers thread ?_, ?_⟩
    · rw [hfst, forks]
      rfl
    · exact fun e he => absurd he List.not_mem_nil
    · rw [List.append_nil, List.filterMap_append, hseen]
      exact (List.perm_append_singleton _ _).trans ((hperm.cons _).trans List.perm_middle.symm)
  | @issues x tlog d kd world xs forks' forks starts thread =>
    rw [hseen] at hperm
    -- the thread it shows as stands somewhere in `p`
    obtain ⟨as, bs, hp⟩ := List.append_of_mem
      (hperm.mem_iff.mpr (List.mem_append_right _ List.mem_cons_self))
    have hrest : (as ++ bs).Perm (v₁.filterMap Prod.snd ++ v₃.filterMap Prod.snd) := by
      rw [hp] at hperm
      exact (List.perm_cons _).mp ((List.perm_middle.symm.trans hperm).trans List.perm_middle)
    let t₁ : Thread C R Call Out := ⟨x, tlog ++ [⟨d, (S.exec d p.world).1⟩],
      kd (S.exec d p.world).1⟩
    let vs : List (Thread C' R' Call' Out' × Option (Thread C R Call Out)) :=
      xs.map fun e => (S'.start e.1, some (S.start e.2))
    refine ⟨⟨(S.exec d p.world).2, as ++ t₁ :: bs ++ (S.forks d).map S.start⟩,
      .tail (l := .step as.length) (.refl p) trivial ?_, ?_,
      v₁ ++ (⟨x', log ++ [⟨c, (S'.exec c q.world).1⟩], k (S'.exec c q.world).1⟩, some t₁) :: v₃ ++ vs,
      ?_, hothers ?_ ?_, ?_⟩
    · have hget : p.threads[as.length]? = some ⟨x, tlog, .step d kd⟩ := by
        rw [hp, List.getElem?_append_right (Nat.le_refl _), Nat.sub_self]
        rfl
      have hset : p.threads.set as.length t₁ = as ++ t₁ :: bs := by
        rw [hp, List.set_append_right _ _ (Nat.le_refl _), Nat.sub_self]
        rfl
      simp only [System.next, hget]
      rw [hset]
    · show (S.exec d p.world).2 = M.part (S'.exec c q.world).2
      rw [hw, world]
    · rw [hfst, ← forks', List.map_map, List.map_map]
      rfl
    · show M.shows _ (some t₁)
      simp only [t₁, hw]
      exact thread
    · intro e he
      obtain ⟨y, hy, rfl⟩ := List.mem_map.mp he
      exact starts y hy
    · have hvs : vs.filterMap Prod.snd = (S.forks d).map S.start := by
        rw [← forks, List.filterMap_map, List.map_map]
        exact congrFun List.filterMap_eq_map xs
      rw [List.filterMap_append, List.filterMap_append, hseen, hvs]
      exact ((List.perm_middle.trans (hrest.cons _)).trans List.perm_middle.symm).append_right _

/-- One step shows as some steps. -/
theorem seen_next {l : Label Call' Act'} (h : M.Seen q p) (hn : S'.next q l = some q') :
    ∃ p', S.Runs (fun _ _ => True) p p' ∧ M.Seen q' p' := by
  rcases System.next_cases hn with ⟨x', rfl, rfl⟩ | ⟨a, rfl, rfl⟩ |
    ⟨i, pre, post, x', log, c, k, rfl, hts, -, rfl⟩
  · exact h.call x'
  · obtain ⟨hw, hview⟩ := h
    rcases M.act a q.world with hsame | ⟨b, hact⟩
    · exact ⟨p, .refl p, hw.trans hsame.symm, hview⟩
    · refine ⟨{ p with world := S.act b p.world }, .tail (l := .act b) (.refl p) trivial rfl,
        ?_, hview⟩
      show S.act b p.world = M.part (S'.act a q.world)
      rw [hw, hact]
  · exact h.step hts

/-- A run shows as a run. -/
theorem seen_runs {ok : Pool C' R' W' Call' Out' → Label Call' Act' → Prop} (h : M.Seen q p)
    (hr : S'.Runs ok q q') : ∃ p', S.Runs (fun _ _ => True) p p' ∧ M.Seen q' p' := by
  induction hr with
  | refl => exact ⟨p, .refl p, h⟩
  | tail _ _ hn ih =>
    obtain ⟨p₁, hp₁, hs₁⟩ := ih
    obtain ⟨p₂, hp₂, hs₂⟩ := seen_next hs₁ hn
    exact ⟨p₂, hp₁.trans hp₂, hs₂⟩

end Simulation

end Awaiting
