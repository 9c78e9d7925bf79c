import WhisprMedia.ThreadPool
import Mathlib.Algebra.BigOperators.Group.List.Basic
import Mathlib.Algebra.Order.Group.Multiset
import Mathlib.Tactic.Abel

/-! Stores that take entries from commands. What a store that only grows holds is what the logs of all
threads have entered, or at least that much where a command may enter more than it is answered; and what
any store holds, some thread has entered. -/
namespace Awaiting

variable {C : Type} {R : C → Type} {W Call Act Out M : Type}

/-- A relation that amounts can be added to. -/
structure Additive [AddCommMonoid M] (rel : M → M → Prop) : Prop where
  refl : ∀ a, rel a a
  trans : ∀ {a b c}, rel a b → rel b c → rel a c
  add : ∀ {a b} c, rel a b → rel (a + c) (b + c)

theorem additive_eq [AddCommMonoid M] : Additive fun a b : M => a = b :=
  ⟨fun _ => rfl, Eq.trans, fun _ h => by rw [h]⟩

theorem additive_le [AddCommMonoid M] [Preorder M] [AddRightMono M] :
    Additive fun a b : M => a ≤ b :=
  ⟨le_refl, le_trans, fun c h => add_le_add_left h c⟩

/-- A store of a system: what it holds, and what an event enters into it. -/
structure Ledger (S : System C R W Call Act Out) (M : Type) [AddCommMonoid M]
    (rel : M → M → Prop) where
  holds : W → M
  entry : Event C R → M
  exec : ∀ c w, rel (holds w + entry ⟨c, (S.exec c w).1⟩) (holds (S.exec c w).2)
  act : ∀ a w, rel (holds w) (holds (S.act a w))

namespace Ledger

variable [AddCommMonoid M] {S : System C R W Call Act Out} {rel : M → M → Prop} (L : Ledger S M rel)

/-- What a log has entered. -/
def entries (log : List (Event C R)) : M := (log.map L.entry).sum

/-- What the threads of a pool have entered. -/
def tally (ts : List (Thread C R Call Out)) : M := (ts.map fun t => L.entries t.log).sum

theorem entries_append (l l' : List (Event C R)) : L.entries (l ++ l') = L.entries l + L.entries l' := by
  rw [entries, List.map_append, List.sum_append]
  rfl

theorem tally_append (ts ts' : List (Thread C R Call Out)) :
    L.tally (ts ++ ts') = L.tally ts + L.tally ts' := by
  rw [tally, List.map_append, List.sum_append]
  rfl

theorem tally_start (xs : List Call) : L.tally (xs.map S.start) = 0 := by
  refine List.sum_eq_zero fun m hm => ?_
  obtain ⟨t, ht, rfl⟩ := List.mem_map.mp hm
  obtain ⟨x, -, rfl⟩ := List.mem_map.mp ht
  rfl

/-- A thread that has issued one more command. -/
theorem tally_step {pre post : List (Thread C R Call Out)} {x : Call} {log : List (Event C R)}
    {p q : Prog C R Out} {e : Event C R} :
    L.tally (pre ++ ⟨x, log ++ [e], q⟩ :: post) = L.tally (pre ++ ⟨x, log, p⟩ :: post) + L.entry e := by
  have hone : L.entries [e] = L.entry e := by
    rw [entries, List.map_singleton, List.sum_singleton]
  simp only [tally, List.map_append, List.map_cons, List.sum_append, List.sum_cons, entries_append,
    hone]
  abel

/-- An entry of many is the doing of one event. -/
theorem mem_tally {β : Type} {rel : Multiset β → Multiset β → Prop} {L : Ledger S (Multiset β) rel}
    {ts : List (Thread C R Call Out)} {b : β} :
    b ∈ L.tally ts ↔ ∃ t ∈ ts, ∃ e ∈ t.log, b ∈ L.entry e := by
  have hmem {γ : Type} (f : γ → Multiset β) (l : List γ) :
      b ∈ (l.map f).sum ↔ ∃ c ∈ l, b ∈ f c := by
    induction l with
    | nil => simp
    | cons c l ih => simp only [List.map_cons, List.sum_cons, Multiset.mem_add, ih,
        List.mem_cons, exists_eq_or_imp]
  simp only [tally, hmem, entries]

variable {L}

/-- The store holds what has been entered in the run. -/
theorem balance (hrel : Additive rel) {ok : Pool C R W Call Out → Label Call Act → Prop} {w : W}
    {q : Pool C R W Call Out} (h : S.Runs ok ⟨w, []⟩ q) :
    rel (L.holds w + L.tally q.threads) (L.holds q.world) := by
  induction h with
  | refl =>
    have hnone : L.tally ([] : List (Thread C R Call Out)) = 0 := rfl
    rw [hnone, add_zero]
    exact hrel.refl _
  | @tail p q l _ _ hn ih =>
    rcases System.next_cases hn with ⟨x, -, rfl⟩ | ⟨a, -, rfl⟩ |
      ⟨i, pre, post, x, log, c, k, -, hts, -, rfl⟩
    · have hstart := L.tally_start [x]
      rw [List.map_singleton] at hstart
      rw [tally_append, hstart, add_zero]
      exact ih
    · exact hrel.trans ih (L.act a _)
    · rw [tally_append, tally_start, add_zero, tally_step (p := .step c k), ← hts, ← add_assoc]
      exact hrel.trans (hrel.add _ ih) (L.exec c _)

/-- Where an entry is found twice, it is the same thread that has entered it. -/
theorem same_thread {β : Type} {rel : Multiset β → Multiset β → Prop} {L : Ledger S (Multiset β) rel}
    {ts : List (Thread C R Call Out)} (hnodup : (L.tally ts).Nodup) {i j : ℕ}
    {t t' : Thread C R Call Out} (ht : ts[i]? = some t) (ht' : ts[j]? = some t') {e e' : Event C R}
    (he : e ∈ t.log) (he' : e' ∈ t'.log) {b : β} (hb : b ∈ L.entry e) (hb' : b ∈ L.entry e') :
    i = j := by
  induction ts generalizing i j with
  | nil => exact absurd ht (by simp)
  | cons t₀ ts ih =>
    have hcons : L.tally (t₀ :: ts) = L.tally [t₀] + L.tally ts := L.tally_append [t₀] ts
    rw [hcons, Multiset.nodup_add] at hnodup
    obtain ⟨-, hnodup, hdisjoint⟩ := hnodup
    have hhead {t : Thread C R Call Out} {e : Event C R} (ht : (t₀ :: ts)[0]? = some t) (he : e ∈ t.log)
        (hb : b ∈ L.entry e) : b ∉ L.tally ts := by
      obtain rfl := Option.some.inj ht
      exact Multiset.disjoint_left.mp hdisjoint
        (mem_tally.mpr ⟨t₀, List.mem_singleton_self _, e, he, hb⟩)
    have htail {j : ℕ} {t : Thread C R Call Out} {e : Event C R} (ht : ts[j]? = some t) (he : e ∈ t.log)
        (hb : b ∈ L.entry e) : b ∈ L.tally ts :=
      mem_tally.mpr ⟨t, List.mem_of_getElem? ht, e, he, hb⟩
    cases i with
    | zero =>
      cases j with
      | zero => rfl
      | succ j => exact absurd (htail ht' he' hb') (hhead ht he hb)
    | succ i =>
      cases j with
      | zero => exact absurd (htail ht he hb) (hhead ht' he' hb')
      | succ j => exact congrArg Nat.succ (ih hnodup ht ht')

end Ledger

/-- A store that holds nothing but what some event has entered. -/
structure Origin (S : System C R W Call Act Out) (β : Type) where
  holds : W → β → Prop
  enters : Event C R → β → Prop
  exec : ∀ c w b, holds (S.exec c w).2 b → holds w b ∨ enters ⟨c, (S.exec c w).1⟩ b
  act : ∀ a w b, holds (S.act a w) b → holds w b

/-- What a store holds was there at the start of the run, or a thread has entered it. -/
theorem Origin.entered {β : Type} {S : System C R W Call Act Out} (O : Origin S β)
    {ok : Pool C R W Call Out → Label Call Act → Prop} {w : W} {p q : Pool C R W Call Out}
    (h : S.Runs ok ⟨w, []⟩ p) (h' : S.Runs ok p q) {b : β} (hb : O.holds p.world b) :
    O.holds w b ∨ ∃ (i : ℕ) (t : Thread C R Call Out), q.threads[i]? = some t ∧
      ∃ e ∈ t.log, O.enters e b := by
  induction h with
  | refl => exact Or.inl hb
  | @tail p₀ p₁ l _ hok hn ih =>
    have hlater := System.Runs.trans (.tail (.refl _) hok hn) h'
    rcases System.next_cases hn with ⟨x, -, rfl⟩ | ⟨a, -, rfl⟩ |
      ⟨i, pre, post, x, log, c, k, -, -, hlen, rfl⟩
    · exact ih hlater hb
    · exact ih hlater (O.act a _ b hb)
    · rcases O.exec c p₀.world b hb with hp | hen
      · exact ih hlater hp
      · -- the thread that has moved is still there, with a longer log
        have hat : (pre ++ ⟨x, log ++ [⟨c, (S.exec c p₀.world).1⟩], k (S.exec c p₀.world).1⟩ :: post ++
            (S.forks c).map S.start)[i]? =
            some ⟨x, log ++ [⟨c, (S.exec c p₀.world).1⟩], k (S.exec c p₀.world).1⟩ := by
          rw [List.append_assoc, List.getElem?_append_right (by omega)]
          simp [← hlen]
        obtain ⟨t', ht', -, hlog⟩ := h'.thread hat
        exact Or.inr ⟨i, t', ht', _, hlog.subset (List.mem_append_right _ (List.mem_singleton_self _)),
          hen⟩

end Awaiting
