import WhisprMedia.ThreadPool

/-! Invariants with one assertion for what is left of each thread. A step is checked against the
assertion of the thread that moves, and must not disturb those of the others. -/
namespace Awaiting

variable {C : Type} {R : C → Type} {W Call Act Out : Type} {S : System C R W Call Act Out}
  {ok : Pool C R W Call Out → Label Call Act → Prop} {I : W → Prop}
  {P : W → Call → Prog C R Out → Prop}

/-- The invariant of the world, and the assertion of every thread. -/
structure Pool.Local (I : W → Prop) (P : W → Call → Prog C R Out → Prop)
    (p : Pool C R W Call Out) : Prop where
  world : I p.world
  threads : ∀ t ∈ p.threads, P p.world t.call t.rest

/-- What has to be checked of calls, acts and commands. -/
structure LocalRules (S : System C R W Call Act Out)
    (ok : Pool C R W Call Out → Label Call Act → Prop) (I : W → Prop)
    (P : W → Call → Prog C R Out → Prop) : Prop where
  start : ∀ w x, P w x (S.body x)
  act : ∀ p a, ok p (.act a) → p.Local I P →
    I (S.act a p.world) ∧ ∀ t ∈ p.threads, P (S.act a p.world) t.call t.rest
  step : ∀ p i x log c k, ok p (.step i) → p.threads[i]? = some ⟨x, log, .step c k⟩ →
    p.Local I P → I (S.exec c p.world).2 ∧
      P (S.exec c p.world).2 x (k (S.exec c p.world).1) ∧
      ∀ y q, P p.world y q → P (S.exec c p.world).2 y q

namespace LocalRules

theorem next (h : LocalRules S ok I P) {p q : Pool C R W Call Out} {l : Label Call Act}
    (hp : p.Local I P) (hok : ok p l) (hn : S.next p l = some q) : q.Local I P := by
  rcases System.next_cases hn with ⟨x, -, rfl⟩ | ⟨a, rfl, rfl⟩ |
    ⟨i, pre, post, x, log, c, k, rfl, hts, hlen, rfl⟩
  · refine ⟨hp.world, fun t ht => ?_⟩
    rcases List.mem_append.mp ht with ht | ht
    · exact hp.threads t ht
    · obtain rfl := List.mem_singleton.mp ht
      exact h.start _ _
  · obtain ⟨hw, hts⟩ := h.act p a hok hp
    exact ⟨hw, hts⟩
  · have hat : p.threads[i]? = some ⟨x, log, .step c k⟩ := by
      rw [hts, ← hlen]
      simp
    obtain ⟨hw, hown, hothers⟩ := h.step p i x log c k hok hat hp
    refine ⟨hw, fun t ht => ?_⟩
    simp only [List.mem_append, List.mem_cons] at ht
    rcases ht with (ht | rfl | ht) | ht
    · exact hothers _ _ (hp.threads t (by simp [hts, ht]))
    · exact hown
    · exact hothers _ _ (hp.threads t (by simp [hts, ht]))
    · obtain ⟨y, -, rfl⟩ := List.mem_map.mp ht
      exact h.start _ _

theorem runs (h : LocalRules S ok I P) {p q : Pool C R W Call Out} (hp : p.Local I P)
    (hr : S.Runs ok p q) : q.Local I P := by
  induction hr with
  | refl => exact hp
  | tail _ hok hn ih => exact h.next ih hok hn

theorem local_empty {w : W} (hw : I w) : (⟨w, []⟩ : Pool C R W Call Out).Local I P :=
  ⟨hw, fun _ ht => absurd ht List.not_mem_nil⟩

end LocalRules

/-- An assertion about one thread, kept by its own steps and by everything else. -/
structure WatchRules (S : System C R W Call Act Out)
    (ok : Pool C R W Call Out → Label Call Act → Prop) (I : W → Prop)
    (P F : W → Call → Prog C R Out → Prop) : Prop where
  act : ∀ p a, ok p (.act a) → p.Local I P → ∀ t ∈ p.threads, F p.world t.call t.rest →
    F (S.act a p.world) t.call t.rest
  step : ∀ p i x log c k, ok p (.step i) → p.threads[i]? = some ⟨x, log, .step c k⟩ →
    p.Local I P → F p.world x (.step c k) → F (S.exec c p.world).2 x (k (S.exec c p.world).1)
  others : ∀ (p : Pool C R W Call Out) (c : C), p.Local I P → ∀ y q, F p.world y q → F (S.exec c p.world).2 y q

theorem WatchRules.next {F : W → Call → Prog C R Out → Prop} (h : WatchRules S ok I P F)
    {p q : Pool C R W Call Out} {l : Label Call Act} (hp : p.Local I P) (hok : ok p l)
    (hn : S.next p l = some q) {i : ℕ} {t : Thread C R Call Out} (ht : p.threads[i]? = some t)
    (hF : F p.world t.call t.rest) :
    ∃ t', q.threads[i]? = some t' ∧ t'.call = t.call ∧ F q.world t'.call t'.rest := by
  have hlt := (List.getElem?_eq_some_iff.mp ht).1
  rcases System.next_cases hn with ⟨x, -, rfl⟩ | ⟨a, rfl, rfl⟩ |
    ⟨j, pre, post, x, log, c, k, rfl, hts, hlen, rfl⟩
  · exact ⟨t, by rwa [List.getElem?_append_left hlt], rfl, hF⟩
  · exact ⟨t, ht, rfl, h.act p a hok hp t (List.mem_of_getElem? ht) hF⟩
  · have hat : p.threads[j]? = some ⟨x, log, .step c k⟩ := by
      rw [hts, ← hlen]
      simp
    rw [hts] at hlt ht
    have hleft {u : Thread C R Call Out} : (pre ++ u :: post ++ (S.forks c).map S.start)[i]? =
        (pre ++ u :: post)[i]? := by
      rw [List.getElem?_append_left (by simpa using hlt)]
    rw [hleft]
    by_cases hij : i = j
    · subst hij
      have hself {u : Thread C R Call Out} : (pre ++ u :: post)[i]? = some u := by simp [← hlen]
      obtain rfl := Option.some.inj (hself.symm.trans ht)
      exact ⟨_, hself, rfl, h.step p i x log c k hok hat hp hF⟩
    · refine ⟨t, ?_, rfl, h.others p c hp _ _ hF⟩
      rw [← ht]
      exact System.getElem?_other (hlen ▸ hij)

/-- The assertion holds of the thread at the end of a run. -/
theorem WatchRules.runs {F : W → Call → Prog C R Out → Prop} (h : WatchRules S ok I P F)
    (hl : LocalRules S ok I P) {p q : Pool C R W Call Out} (hp : p.Local I P)
    (hr : S.Runs ok p q) {i : ℕ} {t : Thread C R Call Out} (ht : p.threads[i]? = some t)
    (hF : F p.world t.call t.rest) :
    ∃ t', q.threads[i]? = some t' ∧ t'.call = t.call ∧ F q.world t'.call t'.rest := by
  induction hr with
  | refl => exact ⟨t, ht, rfl, hF⟩
  | tail hr hok hn ih =>
    obtain ⟨t₁, ht₁, hcall, hF₁⟩ := ih
    obtain ⟨t₂, ht₂, hcall₂, hF₂⟩ := h.next (hl.runs hp hr) hok hn ht₁ hF₁
    exact ⟨t₂, ht₂, hcall₂.trans hcall, hF₂⟩

end Awaiting
