import WhisprMedia.AwaitProgram

/-! A pool of programs that share one world. One step lets one thread issue its next command;
calls arrive, commands start background calls, and the surroundings act on the world at any time. -/
namespace Awaiting

/-- What is common to every run: the commands' effect, the body of each call, the background
calls a command starts, and what the surroundings may do to the world. -/
structure System (C : Type) (R : C → Type) (W Call Act Out : Type) where
  exec : (c : C) → W → R c × W
  body : Call → Prog C R Out
  forks : C → List Call
  act : Act → W → W

/-- A call in progress: the commands it has issued so far and what is left of its body. -/
structure Thread (C : Type) (R : C → Type) (Call Out : Type) where
  call : Call
  log : List (Event C R)
  rest : Prog C R Out

structure Pool (C : Type) (R : C → Type) (W Call Out : Type) where
  world : W
  threads : List (Thread C R Call Out)

inductive Label (Call Act : Type) where
  | call (x : Call)
  | step (i : ℕ)
  | act (a : Act)
  deriving DecidableEq

variable {C : Type} {R : C → Type} {W Call Act Out : Type}

/-- The outcome of a thread, once its body is finished. -/
def Thread.outcome (t : Thread C R Call Out) : Option Out :=
  match t.rest with
  | .pure a => some a
  | .step _ _ => none

theorem Thread.rest_of_outcome {t : Thread C R Call Out} {a : Out} (h : t.outcome = some a) :
    t.rest = .pure a := by
  cases hr : t.rest with
  | pure b =>
    simp only [Thread.outcome, hr, Option.some.injEq] at h
    rw [h]
  | step c k => simp [Thread.outcome, hr] at h

/-- The command that thread `i` issues next. -/
def Pool.nextCmd (p : Pool C R W Call Out) (i : ℕ) : Option C :=
  match p.threads[i]? with
  | some ⟨_, _, .step c _⟩ => some c
  | _ => none

/-- No thread of the pool is still running. -/
def Pool.AtRest (p : Pool C R W Call Out) : Prop := ∀ t ∈ p.threads, t.outcome.isSome

namespace System

variable (S : System C R W Call Act Out)

def start (x : Call) : Thread C R Call Out := ⟨x, [], S.body x⟩

/-- One step of the pool; a step of a thread that is finished or not there is refused. -/
def next (p : Pool C R W Call Out) : Label Call Act → Option (Pool C R W Call Out)
  | .call x => some { p with threads := p.threads ++ [S.start x] }
  | .act a => some { p with world := S.act a p.world }
  | .step i =>
    match p.threads[i]? with
    | some ⟨x, log, .step c k⟩ =>
      let r := S.exec c p.world
      some { world := r.2
             threads := p.threads.set i ⟨x, log ++ [⟨c, r.1⟩], k r.1⟩ ++ (S.forks c).map S.start }
    | _ => none

/-- The same system in other surroundings. -/
def withActs {Act' : Type} (act' : Act' → W → W) : System C R W Call Act' Out :=
  ⟨S.exec, S.body, S.forks, act'⟩

/-- The pools that steps meeting `ok` lead to. -/
inductive Runs (ok : Pool C R W Call Out → Label Call Act → Prop) :
    Pool C R W Call Out → Pool C R W Call Out → Prop
  | refl (p) : Runs ok p p
  | tail {p q q' l} : Runs ok p q → ok q l → S.next q l = some q' → Runs ok p q'

/-- Take the steps of a schedule one after the other, as long as they are allowed. -/
def play (ok : Pool C R W Call Out → Label Call Act → Prop) [∀ p l, Decidable (ok p l)]
    (p : Pool C R W Call Out) : List (Label Call Act) → Option (Pool C R W Call Out)
  | [] => some p
  | l :: ls => if ok p l then (S.next p l).bind fun q => play ok q ls else none

variable {S}

theorem Runs.trans {ok : Pool C R W Call Out → Label Call Act → Prop}
    {p q r : Pool C R W Call Out} (h : S.Runs ok p q) (h' : S.Runs ok q r) : S.Runs ok p r := by
  induction h' with
  | refl => exact h
  | tail _ hok hn ih => exact .tail ih hok hn

theorem Runs.mono {ok ok' : Pool C R W Call Out → Label Call Act → Prop}
    {p q : Pool C R W Call Out} (h : S.Runs ok p q) (hok : ∀ p l, ok p l → ok' p l) :
    S.Runs ok' p q := by
  induction h with
  | refl => exact .refl _
  | tail _ h hn ih => exact .tail ih (hok _ _ h) hn

/-- Where `ok` gives `ok'` after every run, the run meets `ok'` as well. -/
theorem Runs.strengthen {ok ok' : Pool C R W Call Out → Label Call Act → Prop}
    {p q : Pool C R W Call Out} (h : S.Runs ok p q)
    (hok : ∀ q l, S.Runs ok' p q → ok q l → ok' q l) : S.Runs ok' p q := by
  induction h with
  | refl => exact .refl _
  | tail _ h hn ih => exact .tail ih (hok _ _ ih h) hn

/-- What a step can do: a call arrives, the surroundings act, or one thread issues its command. -/
theorem next_cases {p q : Pool C R W Call Out} {l : Label Call Act} (h : S.next p l = some q) :
    (∃ x, l = .call x ∧ q = { p with threads := p.threads ++ [S.start x] }) ∨
    (∃ a, l = .act a ∧ q = { p with world := S.act a p.world }) ∨
    (∃ i pre post x log c k, l = .step i ∧ p.threads = pre ++ ⟨x, log, .step c k⟩ :: post ∧
      pre.length = i ∧
      q = { world := (S.exec c p.world).2
            threads := pre ++ ⟨x, log ++ [⟨c, (S.exec c p.world).1⟩], k (S.exec c p.world).1⟩ :: post
              ++ (S.forks c).map S.start }) := by
  cases l with
  | call x => exact Or.inl ⟨x, rfl, (Option.some.inj h).symm⟩
  | act a => exact Or.inr (Or.inl ⟨a, rfl, (Option.some.inj h).symm⟩)
  | step i =>
    right; right
    cases ht : p.threads[i]? with
    | none => simp [next, ht] at h
    | some t =>
      obtain ⟨x, log, rest⟩ := t
      cases rest with
      | pure a => simp [next, ht] at h
      | step c k =>
        simp only [next, ht, Option.some.injEq] at h
        obtain ⟨hi, hget⟩ := List.getElem?_eq_some_iff.mp ht
        refine ⟨i, p.threads.take i, p.threads.drop (i+1), x, log, c, k, rfl, ?_, ?_, ?_⟩
        · rw [← hget, List.getElem_cons_drop, List.take_append_drop]
        · simp only [List.length_take]
          omega
        · rw [← h, List.set_eq_take_append_cons_drop, if_pos hi]

/-- Threads at other places than the one that moves stay as they are. -/
theorem getElem?_other {α : Type} {pre post : List α} {x y : α} {i : ℕ} (hi : i ≠ pre.length) :
    (pre ++ x :: post)[i]? = (pre ++ y :: post)[i]? := by
  rcases Nat.lt_or_gt_of_ne hi with hlt | hgt
  · rw [List.getElem?_append_left hlt, List.getElem?_append_left hlt]
  · rw [List.getElem?_append_right (by omega), List.getElem?_append_right (by omega)]
    obtain ⟨d, hd⟩ : ∃ d, i - pre.length = d + 1 := ⟨i - pre.length - 1, by omega⟩
    rw [hd, List.getElem?_cons_succ, List.getElem?_cons_succ]

/-- Where a thread comes from in one step: it has just started, or it was there and has moved
only if the step is its own. -/
theorem next_thread {p q : Pool C R W Call Out} {l : Label Call Act} (h : S.next p l = some q)
    {i : ℕ} {t' : Thread C R Call Out} (ht' : q.threads[i]? = some t') :
    t'.log = [] ∨ ∃ t, p.threads[i]? = some t ∧ t.call = t'.call ∧
      (t'.log = t.log ∨ ∃ c k, l = .step i ∧ t.rest = .step c k ∧
        t'.log = t.log ++ [⟨c, (S.exec c p.world).1⟩] ∧ q.world = (S.exec c p.world).2) := by
  have hnew {ts : List (Thread C R Call Out)} (xs : List Call)
      (ht : (ts ++ xs.map S.start)[i]? = some t') : ts[i]? = some t' ∨ t'.log = [] := by
    rcases Nat.lt_or_ge i ts.length with hlt | hge
    · rw [List.getElem?_append_left hlt] at ht
      exact Or.inl ht
    · rw [List.getElem?_append_right hge, List.getElem?_map, Option.map_eq_some_iff] at ht
      obtain ⟨y, -, rfl⟩ := ht
      exact Or.inr rfl
  rcases next_cases h with ⟨x, -, rfl⟩ | ⟨a, -, rfl⟩ |
    ⟨j, pre, post, x, log, c, k, rfl, hts, hlen, rfl⟩
  · rcases hnew [x] ht' with ht | ht
    · exact Or.inr ⟨t', ht, rfl, Or.inl rfl⟩
    · exact Or.inl ht
  · exact Or.inr ⟨t', ht', rfl, Or.inl rfl⟩
  · rcases hnew _ ht' with ht | ht
    · by_cases hij : i = j
      · subst hij
        have hat {u : Thread C R Call Out} : (pre ++ u :: post)[i]? = some u := by simp [← hlen]
        obtain rfl := Option.some.inj (hat.symm.trans ht)
        exact Or.inr ⟨⟨x, log, .step c k⟩, hts ▸ hat, rfl, Or.inr ⟨c, k, rfl, rfl, rfl, rfl⟩⟩
      · refine Or.inr ⟨t', ?_, rfl, Or.inl rfl⟩
        rw [hts, ← ht]
        exact getElem?_other (hlen ▸ hij)
    · exact Or.inl ht

/-- A thread has got to where its log leads its body. -/
theorem Runs.follows {ok : Pool C R W Call Out → Label Call Act → Prop}
    {p q : Pool C R W Call Out} (h : S.Runs ok p q)
    (hp : ∀ t ∈ p.threads, (S.body t.call).Follows t.log t.rest) :
    ∀ t ∈ q.threads, (S.body t.call).Follows t.log t.rest := by
  induction h with
  | refl => exact hp
  | tail _ _ hn ih =>
    intro t ht
    rcases next_cases hn with ⟨x, -, rfl⟩ | ⟨a, -, rfl⟩ |
      ⟨i, pre, post, x, log, c, k, -, hts, -, rfl⟩
    · rcases List.mem_append.mp ht with ht | ht
      · exact ih t ht
      · obtain rfl := List.mem_singleton.mp ht
        exact .done _
    · exact ih t ht
    · simp only [List.mem_append, List.mem_cons] at ht
      rcases ht with (ht | rfl | ht) | ht
      · exact ih t (by simp [hts, ht])
      · exact (ih ⟨x, log, .step c k⟩ (by simp [hts])).snoc _
      · exact ih t (by simp [hts, ht])
      · obtain ⟨y, -, rfl⟩ := List.mem_map.mp ht
        exact .done _

/-- An event in the log of a thread was issued at some moment of the run. -/
theorem Runs.moment {ok : Pool C R W Call Out → Label Call Act → Prop} {w : W}
    {q : Pool C R W Call Out} (h : S.Runs ok ⟨w, []⟩ q) {i : ℕ} {t : Thread C R Call Out}
    (ht : q.threads[i]? = some t) {e : Event C R} (he : e ∈ t.log) :
    ∃ p, S.Runs ok ⟨w, []⟩ p ∧ S.Runs ok p q ∧ p.nextCmd i = some e.1 ∧
      (S.exec e.1 p.world).1 = e.2 := by
  induction h generalizing t with
  | refl => simp at ht
  | @tail p q l hr hok hn ih =>
    have hback {t : Thread C R Call Out} (hp : p.threads[i]? = some t) (he : e ∈ t.log) :
        ∃ p₁, S.Runs ok ⟨w, []⟩ p₁ ∧ S.Runs ok p₁ q ∧ p₁.nextCmd i = some e.1 ∧
          (S.exec e.1 p₁.world).1 = e.2 := by
      obtain ⟨p₁, h₁, h₂, h₃⟩ := ih hp he
      exact ⟨p₁, h₁, .tail h₂ hok hn, h₃⟩
    have hnew {ts : List (Thread C R Call Out)} (xs : List Call) (hs : ts.length = p.threads.length)
        (ht : (ts ++ xs.map S.start)[i]? = some t) : ts[i]? = some t := by
      rcases Nat.lt_or_ge i ts.length with hlt | hge
      · rwa [List.getElem?_append_left hlt] at ht
      · -- a thread that has just started has no log
        rw [List.getElem?_append_right hge, List.getElem?_map, Option.map_eq_some_iff] at ht
        obtain ⟨y, -, rfl⟩ := ht
        exact absurd he List.not_mem_nil
    rcases next_cases hn with ⟨x, -, rfl⟩ | ⟨a, -, rfl⟩ |
      ⟨j, pre, post, x, log, c, k, rfl, hts, hlen, rfl⟩
    · exact hback (hnew [x] rfl ht) he
    · exact hback ht he
    · have ht' := hnew _ (by simp [hts]) ht
      by_cases hij : i = j
      · subst hij
        have hat {u : Thread C R Call Out} : (pre ++ u :: post)[i]? = some u := by simp [← hlen]
        obtain rfl := Option.some.inj (hat.symm.trans ht')
        rcases List.mem_append.mp he with he | he
        · exact hback (t := ⟨x, log, .step c k⟩) (by rw [hts]; exact hat) he
        · obtain rfl := List.mem_singleton.mp he
          refine ⟨p, hr, .tail (.refl p) hok hn, ?_, rfl⟩
          simp only [Pool.nextCmd, hts, hat]
      · have hother : (pre ++ (⟨x, log, .step c k⟩ : Thread C R Call Out) :: post)[i]? = some t := by
          rw [← ht']
          exact getElem?_other (hlen ▸ hij)
        exact hback (hts ▸ hother) he

/-- Where an event of a log stands: in the log at the start of the run, or it was issued at a moment
of the run at which the log had got to it, between two pools of the run. -/
theorem Runs.moment_between {ok : Pool C R W Call Out → Label Call Act → Prop}
    {p q : Pool C R W Call Out} (h : S.Runs ok p q) {i : ℕ} {t : Thread C R Call Out}
    (ht : q.threads[i]? = some t) {l₁ l₂ : List (Event C R)} {e : Event C R}
    (hlog : t.log = l₁ ++ e :: l₂) :
    (∃ t₀, p.threads[i]? = some t₀ ∧ e ∈ t₀.log) ∨
    ∃ p₁ p₂ t₁, S.Runs ok p p₁ ∧ S.Runs ok p₁ q ∧ S.Runs ok p₂ q ∧ p₁.threads[i]? = some t₁ ∧
      t₁.call = t.call ∧ t₁.log = l₁ ∧ S.exec e.1 p₁.world = (e.2, p₂.world) := by
  induction h generalizing t l₂ with
  | refl => exact Or.inl ⟨t, ht, by rw [hlog]; exact List.mem_append_right _ List.mem_cons_self⟩
  | @tail p' q l hr hok hn ih =>
    have hback {t₂ : Thread C R Call Out} (h₂ : p'.threads[i]? = some t₂) (hcall : t₂.call = t.call)
        {l₃ : List (Event C R)} (hlog₂ : t₂.log = l₁ ++ e :: l₃) :
        (∃ t₀, p.threads[i]? = some t₀ ∧ e ∈ t₀.log) ∨
        ∃ p₁ p₂ t₁, S.Runs ok p p₁ ∧ S.Runs ok p₁ q ∧ S.Runs ok p₂ q ∧
          p₁.threads[i]? = some t₁ ∧ t₁.call = t.call ∧ t₁.log = l₁ ∧
          S.exec e.1 p₁.world = (e.2, p₂.world) := by
      rcases ih h₂ hlog₂ with h₀ | ⟨p₁, p₂, t₁, h₀, h₁, h₂, ht₁, hcall₁, hrest⟩
      · exact Or.inl h₀
      · exact Or.inr ⟨p₁, p₂, t₁, h₀, .tail h₁ hok hn, .tail h₂ hok hn, ht₁, hcall₁.trans hcall,
          hrest⟩
    rcases next_thread hn ht with hnil | ⟨t₂, h₂, hcall, hsame | ⟨c, k, rfl, -, hgrown, hworld⟩⟩
    · rw [hnil] at hlog
      exact absurd hlog (by simp)
    · exact hback h₂ hcall (hsame ▸ hlog)
    · rw [hgrown] at hlog
      rcases List.eq_nil_or_concat l₂ with rfl | ⟨l₃, e', rfl⟩
      · -- the event is the one that this step has issued
        obtain ⟨rfl, he⟩ := List.append_inj' hlog rfl
        obtain rfl := List.singleton_inj.mp he
        exact Or.inr ⟨p', q, t₂, hr, .tail (.refl p') hok hn, .refl q, h₂, hcall, rfl,
          Prod.ext rfl hworld.symm⟩
      · rw [List.concat_eq_append, ← List.cons_append, ← List.append_assoc] at hlog
        exact hback h₂ hcall (List.append_inj' hlog rfl).1

/-- A thread keeps its place and its call, and its log grows. -/
theorem Runs.thread {ok : Pool C R W Call Out → Label Call Act → Prop} {p q : Pool C R W Call Out}
    (h : S.Runs ok p q) {i : ℕ} {t : Thread C R Call Out} (ht : p.threads[i]? = some t) :
    ∃ t', q.threads[i]? = some t' ∧ t'.call = t.call ∧ t.log <+: t'.log := by
  induction h with
  | refl => exact ⟨t, ht, rfl, List.prefix_rfl⟩
  | @tail p q l hr _ hn ih =>
    obtain ⟨t', ht', hcall, hlog⟩ := ih
    have hlt := (List.getElem?_eq_some_iff.mp ht').1
    rcases next_cases hn with ⟨x, -, rfl⟩ | ⟨a, -, rfl⟩ |
      ⟨j, pre, post, x, log, c, k, rfl, hts, hlen, rfl⟩
    · exact ⟨t', by rwa [List.getElem?_append_left hlt], hcall, hlog⟩
    · exact ⟨t', ht', hcall, hlog⟩
    · rw [hts] at ht' hlt
      have hleft {u : Thread C R Call Out} : (pre ++ u :: post ++ (S.forks c).map S.start)[i]? =
          (pre ++ u :: post)[i]? := by
        rw [List.getElem?_append_left (by simpa using hlt)]
      rw [hleft]
      by_cases hij : i = j
      · subst hij
        have hat {u : Thread C R Call Out} : (pre ++ u :: post)[i]? = some u := by simp [← hlen]
        obtain rfl := Option.some.inj (hat.symm.trans ht')
        exact ⟨_, hat, hcall, hlog.trans (List.prefix_append _ _)⟩
      · refine ⟨t', ?_, hcall, hlog⟩
        rw [← ht']
        exact getElem?_other (hlen ▸ hij)

/-- A schedule that can be played gives a run. -/
theorem runs_of_play {ok : Pool C R W Call Out → Label Call Act → Prop}
    [∀ p l, Decidable (ok p l)] {p q : Pool C R W Call Out} {ls : List (Label Call Act)}
    (h : S.play ok p ls = some q) : S.Runs ok p q := by
  induction ls generalizing p with
  | nil => exact Option.some.inj h ▸ .refl p
  | cons l ls ih =>
    simp only [play, Option.ite_none_right_eq_some, Option.bind_eq_some_iff] at h
    obtain ⟨hok, p', hp, hq⟩ := h
    exact Runs.trans (.tail (.refl p) hok hp) (ih hq)

end System
end Awaiting
