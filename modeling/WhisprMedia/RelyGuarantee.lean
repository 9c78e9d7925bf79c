import WhisprMedia.ThreadPool
import Mathlib.Algebra.BigOperators.Group.List.Basic
import Mathlib.Algebra.Group.Prod
import Mathlib.Tactic.Abel

/-! Invariants of a thread pool, proved one body at a time. Each thread keeps an account of what
it has done; the accounts of all threads add up, and the invariant ties the world to their sum.
A body is checked against every interference that the rely relation allows. -/
namespace Awaiting

variable {C : Type} {R : C → Type} {W Call Act Out G M α β ε : Type}

/-- How the account of a thread starts, follows its commands, and counts in the total. -/
structure Account (C : Type) (R : C → Type) (Call G M : Type) where
  start : Call → G
  next : G → (c : C) → R c → G
  value : G → M

namespace Account
variable (A : Account C R Call G M)

def of (t : Thread C R Call Out) : G := t.log.foldl (fun g e => A.next g e.1 e.2) (A.start t.call)

theorem of_step (x : Call) (log : List (Event C R)) (e : Event C R) (p q : Prog C R Out) :
    A.of ⟨x, log ++ [e], p⟩ = A.next (A.of ⟨x, log, q⟩) e.1 e.2 := by
  simp only [of, List.foldl_append, List.foldl_cons, List.foldl_nil]

def total [AddCommMonoid M] (p : Pool C R W Call Out) : M :=
  (p.threads.map fun t => A.value (A.of t)).sum

end Account

/-- An invariant of the world and the total account, the changes each thread may rely on from
the others, and the steps the runs are restricted to. -/
structure Discipline (S : System C R W Call Act Out) (G M : Type) [AddCommMonoid M] extends
    Account C R Call G M where
  inv : W → M → Prop
  rely : W → M → W → M → Prop
  may : W → M → G → C → Prop
  rely_refl : ∀ w m, rely w m w m
  rely_trans : ∀ {w m w' m' w'' m''}, rely w m w' m' → rely w' m' w'' m'' → rely w m w'' m''

namespace Discipline

variable [AddCommMonoid M] {S : System C R W Call Act Out} (D : Discipline S G M)

/-- `Q` holds now and in whatever the other threads turn the world into. -/
def Stays (Q : W → M → Prop) (w : W) (m : M) : Prop :=
  ∀ w' m', D.rely w m w' m' → D.inv w' m' → Q w' m'

/-- From account `g` in any world that the others may turn `w` into, every step of the program
keeps the invariant and the rely relation, and its result satisfies `Q`. -/
def Upholds (Q : α → G → W → M → Prop) : Prog C R α → G → W → M → Prop
  | .pure a, g, w, m => D.Stays (Q a g) w m
  | .step c k, g, w, m => ∀ w' f, D.rely w m w' (D.value g + f) → D.inv w' (D.value g + f) →
      D.may w' (D.value g + f) g c →
      let r := S.exec c w'
      let g' := D.next g c r.1
      D.inv r.2 (D.value g' + f) ∧ D.rely w' (D.value g + f) r.2 (D.value g' + f) ∧
        Upholds Q (k r.1) g' r.2 (D.value g' + f)

variable {D} {g : G} {w w' : W} {m m' : M}

theorem Stays.now {Q : W → M → Prop} (h : D.Stays Q w m) (hi : D.inv w m) : Q w m :=
  h w m (D.rely_refl w m) hi

theorem Stays.later {Q : W → M → Prop} (h : D.Stays Q w m) (hr : D.rely w m w' m') :
    D.Stays Q w' m' :=
  fun u n hu hi => h u n (D.rely_trans hr hu) hi

theorem Upholds.later {Q : α → G → W → M → Prop} {p : Prog C R α}
    (h : D.Upholds Q p g w m) (hr : D.rely w m w' m') : D.Upholds Q p g w' m' := by
  cases p with
  | pure a => exact Stays.later h hr
  | step c k => exact fun u f hu hi hm => h u f (D.rely_trans hr hu) hi hm

/-- It is enough to check a program from the later worlds that satisfy the invariant. -/
theorem upholds_of_later {Q : α → G → W → M → Prop} {p : Prog C R α}
    (h : ∀ w' m', D.rely w m w' m' → D.inv w' m' → D.Upholds Q p g w' m') :
    D.Upholds Q p g w m := by
  cases p with
  | pure a => exact fun u n hu hi => (h u n hu hi).now hi
  | step c k => exact fun u f hu hi hm => h u _ hu hi u f (D.rely_refl _ _) hi hm

theorem Upholds.bind {Q : α → G → W → M → Prop} {Q' : β → G → W → M → Prop} {p : Prog C R α}
    {f : α → Prog C R β} (hp : D.Upholds Q p g w m)
    (hf : ∀ a g' w' m', D.inv w' m' → D.Stays (Q a g') w' m' → D.Upholds Q' (f a) g' w' m') :
    D.Upholds Q' (p >>= f) g w m := by
  induction p generalizing g w m with
  | pure a => exact upholds_of_later fun w' m' hr hi => hf a g w' m' hi (Stays.later hp hr)
  | step c k ih =>
    intro w' f' hr hi hm
    obtain ⟨hi', hr', hk⟩ := hp w' f' hr hi hm
    exact ⟨hi', hr', ih _ hk⟩

theorem Upholds.mono {Q Q' : α → G → W → M → Prop} {p : Prog C R α}
    (hp : D.Upholds Q p g w m) (h : ∀ a g' w' m', D.inv w' m' → Q a g' w' m' → Q' a g' w' m') :
    D.Upholds Q' p g w m := by
  induction p generalizing g w m with
  | pure a => exact fun w' m' hr hi => h a g w' m' hi (hp w' m' hr hi)
  | step c k ih =>
    intro w' f' hr hi hm
    obtain ⟨hi', hr', hk⟩ := hp w' f' hr hi hm
    exact ⟨hi', hr', ih _ hk⟩

/-- What happens until a program ends is one big interference. -/
theorem Upholds.with_rely {Q : α → G → W → M → Prop} {p : Prog C R α}
    (hp : D.Upholds Q p g w m) :
    D.Upholds (fun a g' w' m' => Q a g' w' m' ∧ D.rely w m w' m') p g w m := by
  suffices h : ∀ u n, D.rely w m u n → D.Upholds Q p g u n →
      D.Upholds (fun a g' w' m' => Q a g' w' m' ∧ D.rely w m w' m') p g u n from
    h w m (D.rely_refl _ _) hp
  clear hp
  induction p generalizing g with
  | pure a => exact fun u n hu hq w' m' hr hi => ⟨hq w' m' hr hi, D.rely_trans hu hr⟩
  | step c k ih =>
    intro u n hu hp w' f hr hi hm
    obtain ⟨hi', hr', hk⟩ := hp w' f hr hi hm
    exact ⟨hi', hr', ih _ _ _ (D.rely_trans hu (D.rely_trans hr hr')) hk⟩

variable (D)

/-- A command that leaves the account as it is and keeps the invariant and the rely relation. -/
def Neutral (g : G) (c : C) : Prop := ∀ w f, D.inv w (D.value g + f) →
  D.may w (D.value g + f) g c → D.next g c (S.exec c w).1 = g ∧ D.inv (S.exec c w).2 (D.value g + f) ∧
    D.rely w (D.value g + f) (S.exec c w).2 (D.value g + f)

variable {D}

theorem upholds_of_issues {P : C → Prop} {p : Prog C R α} (hp : p.Issues P)
    (hn : ∀ c, P c → D.Neutral g c) :
    D.Upholds (fun _ g' w' m' => g' = g ∧ D.rely w m w' m') p g w m := by
  suffices h : ∀ u n, D.rely w m u n →
      D.Upholds (fun _ g' w' m' => g' = g ∧ D.rely w m w' m') p g u n from h w m (D.rely_refl _ _)
  induction p with
  | pure a => exact fun u n hu w' m' hr _ => ⟨rfl, D.rely_trans hu hr⟩
  | step c k ih =>
    intro u n hu w' f hr hi hm
    obtain ⟨hg, hi', hr'⟩ := hn c hp.1 w' f hi hm
    simp only [hg]
    exact ⟨hi', hr', ih _ (hp.2 _) _ _ (D.rely_trans hu (D.rely_trans hr hr'))⟩

/-! Programs that may throw: `Q` is about the value, `E` about the error. -/

variable (D)

structure Keeps (x : ProgE C R ε α) (g : G) (w : W) (m : M) (Q : α → G → W → M → Prop)
    (E : ε → G → W → M → Prop) : Prop where
  upholds : D.Upholds (fun r g w m => match r with
    | .ok a => Q a g w m
    | .error e => E e g w m) x.run g w m

variable {D} {x : ProgE C R ε α} {Q Q₁ : α → G → W → M → Prop} {E E₁ : ε → G → W → M → Prop}

theorem keeps_pure {a : α} (h : D.Stays (Q a g) w m) :
    D.Keeps (pure a : ProgE C R ε α) g w m Q E := ⟨h⟩

theorem keeps_throw {e : ε} (h : D.Stays (E e g) w m) :
    D.Keeps (throw e : ProgE C R ε α) g w m Q E := ⟨h⟩

/-- One command: what it does to any later world, and what its answer is turned into. -/
theorem keeps_issue {c : C} {k : R c → Except ε α}
    (h : ∀ w' f, D.rely w m w' (D.value g + f) → D.inv w' (D.value g + f) →
      D.may w' (D.value g + f) g c →
      D.inv (S.exec c w').2 (D.value (D.next g c (S.exec c w').1) + f) ∧
      D.rely w' (D.value g + f) (S.exec c w').2 (D.value (D.next g c (S.exec c w').1) + f) ∧
      D.Stays (fun u n => match k (S.exec c w').1 with
        | .ok a => Q a (D.next g c (S.exec c w').1) u n
        | .error e => E e (D.next g c (S.exec c w').1) u n)
        (S.exec c w').2 (D.value (D.next g c (S.exec c w').1) + f)) :
    D.Keeps (ProgE.issue c k) g w m Q E := by
  refine ⟨fun w' f hr hi hm => ?_⟩
  exact h w' f hr hi hm

theorem Keeps.bind {f : α → ProgE C R ε β} {Q' : β → G → W → M → Prop}
    (hx : D.Keeps x g w m Q E)
    (hf : ∀ a g' w' m', D.inv w' m' → D.Stays (Q a g') w' m' → D.Keeps (f a) g' w' m' Q' E) :
    D.Keeps (x >>= f) g w m Q' E := by
  constructor
  rw [ProgE.run_bind_eq]
  refine Upholds.bind hx.upholds fun r g' w' m' hi h => ?_
  cases r with
  | ok a => exact (hf a g' w' m' hi h).upholds
  | error e => exact h

theorem Keeps.with_rely (hx : D.Keeps x g w m Q E) :
    D.Keeps x g w m (fun a g' w' m' => Q a g' w' m' ∧ D.rely w m w' m') E := by
  refine ⟨Upholds.mono (Upholds.with_rely hx.upholds) fun r g' w' m' _ h => ?_⟩
  cases r with
  | ok a => exact h
  | error e => exact h.1

/-- `Keeps.bind` for a second part that needs to know what has happened since the first. -/
theorem Keeps.seq {f : α → ProgE C R ε β} {Q' : β → G → W → M → Prop}
    (hx : D.Keeps x g w m Q E)
    (hf : ∀ a g' w' m', D.rely w m w' m' → D.inv w' m' → D.Stays (Q a g') w' m' →
      D.Keeps (f a) g' w' m' Q' E) :
    D.Keeps (x >>= f) g w m Q' E :=
  Keeps.bind hx.with_rely fun a g' w' m' hi h =>
    hf a g' w' m' (h.now hi).2 hi fun u n hr hi' => (h u n hr hi').1

theorem Keeps.mono (hx : D.Keeps x g w m Q E)
    (hQ : ∀ a g' w' m', D.inv w' m' → Q a g' w' m' → Q₁ a g' w' m')
    (hE : ∀ e g' w' m', D.inv w' m' → E e g' w' m' → E₁ e g' w' m') :
    D.Keeps x g w m Q₁ E₁ := by
  refine ⟨Upholds.mono hx.upholds fun r g' w' m' hi h => ?_⟩
  cases r with
  | ok a => exact hQ a g' w' m' hi h
  | error e => exact hE e g' w' m' hi h

theorem Keeps.map {f : α → β} {P : β → G → W → M → Prop} (hx : D.Keeps x g w m Q E)
    (hf : ∀ a g' w' m', D.inv w' m' → Q a g' w' m' → P (f a) g' w' m') :
    D.Keeps (f <$> x) g w m P E :=
  Keeps.bind hx fun a _ _ _ _ h => keeps_pure fun u n hr hi => hf a _ u n hi (h u n hr hi)

theorem Keeps.tryCatch {handle : ε → ProgE C R ε α} (hx : D.Keeps x g w m Q E)
    (hh : ∀ e g' w' m', D.inv w' m' → D.Stays (E e g') w' m' →
      D.Keeps (handle e) g' w' m' Q E₁) :
    D.Keeps (tryCatch x handle) g w m Q E₁ := by
  constructor
  rw [ProgE.run_tryCatch_eq]
  refine Upholds.bind hx.upholds fun r g' w' m' hi h => ?_
  cases r with
  | ok a => exact h
  | error e => exact (hh e g' w' m' hi h).upholds

/-- Behind `finally`, the clean-up runs after a value and after an error. -/
theorem Keeps.ensuring {fin : ProgE C R ε Unit} (hx : D.Keeps x g w m Q E)
    (hok : ∀ a g' w' m', D.inv w' m' → D.Stays (Q a g') w' m' →
      D.Keeps fin g' w' m' (fun _ => Q₁ a) E₁)
    (herr : ∀ e g' w' m', D.inv w' m' → D.Stays (E e g') w' m' →
      D.Keeps fin g' w' m' (fun _ => E₁ e) E₁) :
    D.Keeps (ProgE.ensuring x fin) g w m Q₁ E₁ := by
  refine ⟨Upholds.bind hx.upholds fun r g' w' m' hi h => ?_⟩
  cases r with
  | ok a => exact (Keeps.bind (hok a g' w' m' hi h) fun _ _ _ _ _ h' => keeps_pure h').upholds
  | error e =>
    exact (Keeps.bind (herr e g' w' m' hi h)
      fun _ _ _ _ _ h' => keeps_throw h').upholds

theorem keeps_of_issues {P : C → Prop} (hp : x.Issues P) (hn : ∀ c, P c → D.Neutral g c) :
    D.Keeps x g w m (fun _ g' w' m' => g' = g ∧ D.rely w m w' m')
      (fun _ g' w' m' => g' = g ∧ D.rely w m w' m') := by
  refine ⟨Upholds.mono (upholds_of_issues hp hn) fun r g' w' m' _ h => ?_⟩
  cases r <;> exact h

/-- A part whose commands are neutral comes before the part that matters. -/
theorem Keeps.after {P : C → Prop} {f : α → ProgE C R ε β} {Q' : β → G → W → M → Prop}
    (hp : x.Issues P) (hn : ∀ c, P c → D.Neutral g c)
    (hE : ∀ e, D.Stays (E e g) w m)
    (hf : ∀ a w' m', D.rely w m w' m' → D.inv w' m' → D.Keeps (f a) g w' m' Q' E) :
    D.Keeps (x >>= f) g w m Q' E := by
  refine Keeps.bind
    (Keeps.mono (keeps_of_issues hp hn) (fun _ _ _ _ _ h => h) ?_) ?_
  · rintro e _ w' m' hi ⟨rfl, hr⟩
    exact hE e w' m' hr hi
  · intro a g' w' m' hi h
    obtain ⟨rfl, hr⟩ := h.now hi
    exact hf a w' m' hr hi

/-- A program whose commands are all neutral keeps what stays. -/
theorem keeps_neutral {P : C → Prop} (hp : x.Issues P) (hn : ∀ c, P c → D.Neutral g c)
    (hQ : ∀ a, D.Stays (Q a g) w m) (hE : ∀ e, D.Stays (E e g) w m) :
    D.Keeps x g w m Q E := by
  refine Keeps.mono (keeps_of_issues hp hn) ?_ ?_
  · rintro a _ w' m' hi ⟨rfl, hr⟩
    exact hQ a w' m' hr hi
  · rintro e _ w' m' hi ⟨rfl, hr⟩
    exact hE e w' m' hr hi

/-! From the bodies to whole runs. -/

variable (D) (post : Call → Out → G → W → M → Prop)

/-- A call that may arrive at any time: it owes nothing yet and its body upholds `D`. -/
def Callable (x : Call) : Prop :=
  D.value (D.start x) = 0 ∧
    ∀ w m, D.inv w m → D.Upholds (post x) (S.body x) (D.start x) w m

/-- The steps allowed by `ok` bring callable calls, harmless acts and commands `D` expects. -/
structure Sound (ok : Pool C R W Call Out → Label Call Act → Prop) : Prop where
  call : ∀ p x, ok p (.call x) → D.Callable post x
  fork : ∀ c, ∀ x ∈ S.forks c, D.Callable post x
  act : ∀ p a m, ok p (.act a) → D.inv p.world m →
    D.inv (S.act a p.world) m ∧ D.rely p.world m (S.act a p.world) m
  step : ∀ p i x log c k, ok p (.step i) → p.threads[i]? = some ⟨x, log, .step c k⟩ →
    D.may p.world (D.total p) (D.of ⟨x, log, .step c k⟩) c

/-- The invariant holds, and so does what is left of every thread. -/
structure Holds (p : Pool C R W Call Out) : Prop where
  inv : D.inv p.world (D.total p)
  threads : ∀ t ∈ p.threads, D.Upholds (post t.call) t.rest (D.of t) p.world (D.total p)

/-- Thread `i` is going to end with a result that satisfies `Q`. -/
def Watch (Q : Out → G → W → M → Prop) (i : ℕ) (p : Pool C R W Call Out) : Prop :=
  ∃ t, p.threads[i]? = some t ∧ D.Upholds Q t.rest (D.of t) p.world (D.total p)

variable {D post} {ok : Pool C R W Call Out → Label Call Act → Prop}

theorem total_split {pre pos : List (Thread C R Call Out)} {t : Thread C R Call Out} {u : W} :
    D.total ⟨u, pre ++ t :: pos⟩ =
      D.value (D.of t) + D.total ⟨u, pre ++ pos⟩ := by
  simp only [Account.total, List.map_append, List.map_cons, List.sum_append, List.sum_cons]
  abel

theorem total_append_start {ts : List (Thread C R Call Out)} {xs : List Call} {u : W}
    (h : ∀ x ∈ xs, D.value (D.start x) = 0) :
    D.total ⟨u, ts ++ xs.map S.start⟩ = D.total ⟨u, ts⟩ := by
  have hz : (xs.map fun x => D.value (D.start x)).sum = 0 :=
    List.sum_eq_zero fun y hy => by
      obtain ⟨x, hx, rfl⟩ := List.mem_map.mp hy
      exact h x hx
  simp only [Account.total, List.map_append, List.sum_append, List.map_map]
  rw [show ((fun t => D.value (D.of t)) ∘ S.start) = fun x => D.value (D.start x) from rfl, hz,
    add_zero]

theorem total_call {p : Pool C R W Call Out} {x : Call} (hz : D.value (D.start x) = 0) :
    D.total { p with threads := p.threads ++ [S.start x] } = D.total p := by
  have h : ∀ y ∈ [x], D.value (D.start y) = 0 := by simpa using hz
  exact total_append_start h

section OneStep
variable {pre pos : List (Thread C R Call Out)} {x : Call} {log : List (Event C R)} {c : C}
  {k : R c → Prog C R Out} {u : W}

/-- The thread that issues `c`, as it is before and after. -/
theorem total_step (hfork : ∀ y ∈ S.forks c, D.value (D.start y) = 0) :
    D.total
      { world := (S.exec c u).2
        threads := pre ++ ⟨x, log ++ [⟨c, (S.exec c u).1⟩], k (S.exec c u).1⟩ :: pos
          ++ (S.forks c).map S.start } =
      D.value (D.next (D.of ⟨x, log, .step c k⟩) c (S.exec c u).1) +
        D.total ⟨u, pre ++ pos⟩ := by
  rw [total_append_start hfork, total_split, D.of_step x log _ _ (.step c k)]
  rfl

/-- What a thread is due to do next keeps the invariant, the rely relation and its own course. -/
theorem Upholds.thread_step {Q : Out → G → W → M → Prop}
    (hfork : ∀ y ∈ S.forks c, D.value (D.start y) = 0)
    (hi : D.inv u (D.total ⟨u, pre ++ ⟨x, log, .step c k⟩ :: pos⟩))
    (hm : D.may u (D.total ⟨u, pre ++ ⟨x, log, .step c k⟩ :: pos⟩)
      (D.of ⟨x, log, .step c k⟩) c)
    (h : D.Upholds Q (.step c k) (D.of ⟨x, log, .step c k⟩) u
      (D.total ⟨u, pre ++ ⟨x, log, .step c k⟩ :: pos⟩))
    {q : Pool C R W Call Out}
    (hq : q = { world := (S.exec c u).2
                threads := pre ++ ⟨x, log ++ [⟨c, (S.exec c u).1⟩], k (S.exec c u).1⟩ :: pos
                  ++ (S.forks c).map S.start }) :
    D.inv q.world (D.total q) ∧
    D.rely u (D.total ⟨u, pre ++ ⟨x, log, .step c k⟩ :: pos⟩) q.world (D.total q) ∧
    D.Upholds Q (k (S.exec c u).1) (D.of ⟨x, log ++ [⟨c, (S.exec c u).1⟩], k (S.exec c u).1⟩)
      q.world (D.total q) := by
  subst hq
  rw [total_step hfork, D.of_step x log _ _ (.step c k)]
  rw [total_split] at hi hm h ⊢
  exact h u _ (D.rely_refl _ _) hi hm

end OneStep

/-- A change of the world that keeps the invariant and that every thread relies on. -/
theorem Holds.change {p : Pool C R W Call Out} {u : W} (hp : D.Holds post p)
    (hi : D.inv u (D.total p)) (hr : D.rely p.world (D.total p) u (D.total p)) :
    D.Holds post { p with world := u } :=
  ⟨hi, fun t ht => (hp.threads t ht).later hr⟩

theorem Holds.step {p q : Pool C R W Call Out} {l : Label Call Act} (hs : D.Sound post ok)
    (hp : D.Holds post p) (hok : ok p l) (hn : S.next p l = some q) :
    D.Holds post q ∧ D.rely p.world (D.total p) q.world (D.total q) := by
  rcases System.next_cases hn with ⟨x, rfl, rfl⟩ | ⟨a, rfl, rfl⟩ |
    ⟨i, pre, pos, x, log, c, k, rfl, hts, hlen, hq⟩
  · -- a call arrives: its account is still empty
    obtain ⟨hz, hx⟩ := hs.call p x hok
    have ht := total_call (p := p) hz
    refine ⟨⟨ht ▸ hp.inv, fun t hmem => ?_⟩, ht ▸ D.rely_refl _ _⟩
    rw [ht]
    rcases List.mem_append.mp hmem with hmem | hmem
    · exact hp.threads t hmem
    · obtain rfl := List.mem_singleton.mp hmem
      exact hx _ _ hp.inv
  · obtain ⟨hi, hr⟩ := hs.act p a _ hok hp.inv
    exact ⟨hp.change hi hr, hr⟩
  · -- thread `i` issues `c`: all other threads see a change they rely on
    obtain ⟨u, ts⟩ := p
    obtain rfl : ts = _ := hts
    have hi : (pre ++ (⟨x, log, .step c k⟩ : Thread C R Call Out) :: pos)[i]? =
        some ⟨x, log, .step c k⟩ := by simp [← hlen]
    have hmay := hs.step _ i x log c k hok hi
    obtain ⟨hinv, hrely, hk⟩ := Upholds.thread_step (fun y hy => (hs.fork c y hy).1) hp.inv hmay
      (hp.threads ⟨x, log, .step c k⟩ (by simp)) hq
    refine ⟨⟨hinv, fun t hmem => ?_⟩, hrely⟩
    simp only [hq, List.mem_append, List.mem_cons] at hmem
    rcases hmem with (hmem | rfl | hmem) | hmem
    · exact (hp.threads t (by simp [hmem])).later hrely
    · exact hk
    · exact (hp.threads t (by simp [hmem])).later hrely
    · obtain ⟨y, hy, rfl⟩ := List.mem_map.mp hmem
      exact (hs.fork c y hy).2 _ _ hinv

theorem Holds.runs {p q : Pool C R W Call Out} (hs : D.Sound post ok) (hp : D.Holds post p)
    (h : S.Runs ok p q) : D.Holds post q ∧ D.rely p.world (D.total p) q.world (D.total q) := by
  induction h with
  | refl => exact ⟨hp, D.rely_refl _ _⟩
  | tail _ hok hn ih =>
    obtain ⟨hq, hr⟩ := ih
    obtain ⟨hq', hr'⟩ := hq.step hs hok hn
    exact ⟨hq', D.rely_trans hr hr'⟩

/-- A pool without threads satisfies `Holds` as soon as its world satisfies the invariant. -/
theorem holds_of_empty {u : W} (h : D.inv u 0) : D.Holds post ⟨u, []⟩ :=
  ⟨h, fun _ ht => absurd ht (List.not_mem_nil)⟩

/-- What a finished thread has achieved still holds. -/
theorem Holds.outcome {p : Pool C R W Call Out} (hp : D.Holds post p) {t : Thread C R Call Out}
    (ht : t ∈ p.threads) {a : Out} (ha : t.outcome = some a) :
    post t.call a (D.of t) p.world (D.total p) := by
  have h := hp.threads t ht
  rw [Thread.rest_of_outcome ha] at h
  exact Stays.now h hp.inv

theorem Watch.step {Q : Out → G → W → M → Prop} {i : ℕ} {p q : Pool C R W Call Out}
    {l : Label Call Act} (hs : D.Sound post ok) (hp : D.Holds post p) (h : D.Watch Q i p)
    (hok : ok p l) (hn : S.next p l = some q) : D.Watch Q i q := by
  obtain ⟨t, ht, hk⟩ := h
  have hrely := (hp.step hs hok hn).2
  rcases System.next_cases hn with ⟨x, rfl, rfl⟩ | ⟨a, rfl, rfl⟩ |
    ⟨j, pre, pos, x, log, c, k, rfl, hts, hlen, hq⟩
  · refine ⟨t, ?_, hk.later hrely⟩
    rw [List.getElem?_append_left (List.getElem?_eq_some_iff.mp ht).1]
    exact ht
  · exact ⟨t, ht, hk.later hrely⟩
  · obtain ⟨u, ts⟩ := p
    obtain rfl : ts = _ := hts
    by_cases hij : i = j
    · -- the watched thread itself moves on
      have hi : (pre ++ (⟨x, log, .step c k⟩ : Thread C R Call Out) :: pos)[i]? =
          some ⟨x, log, .step c k⟩ := by simp [hij, ← hlen]
      obtain rfl : ⟨x, log, .step c k⟩ = t := Option.some.inj (hi ▸ ht)
      have hmay := hs.step _ j x log c k hok (hij ▸ hi)
      obtain ⟨-, -, hk'⟩ := Upholds.thread_step (fun y hy => (hs.fork c y hy).1) hp.inv hmay hk hq
      refine ⟨⟨x, log ++ [⟨c, (S.exec c u).1⟩], k (S.exec c u).1⟩, ?_, hk'⟩
      simp [hq, hij, ← hlen]
    · refine ⟨t, ?_, hk.later hrely⟩
      have hlt : i < (pre ++ (⟨x, log, .step c k⟩ : Thread C R Call Out) :: pos).length :=
        (List.getElem?_eq_some_iff.mp ht).1
      simp only [hq]
      rw [List.getElem?_append_left (by simpa using hlt)]
      rw [← ht]
      exact System.getElem?_other (hlen ▸ hij)

theorem Watch.runs {Q : Out → G → W → M → Prop} {i : ℕ} {p q : Pool C R W Call Out}
    (hs : D.Sound post ok) (hp : D.Holds post p) (h : D.Watch Q i p) (hr : S.Runs ok p q) :
    D.Watch Q i q := by
  induction hr with
  | refl => exact h
  | tail hr hok hn ih => exact ih.step hs (hp.runs hs hr).1 hok hn

/-- A call that arrives now is watched by what its body achieves from here. -/
theorem watch_of_call {Q : Out → G → W → M → Prop} {p q : Pool C R W Call Out} {x : Call}
    (hz : D.value (D.start x) = 0) (hn : S.next p (.call x) = some q)
    (h : D.Upholds Q (S.body x) (D.start x) p.world (D.total p)) :
    D.Watch Q p.threads.length q := by
  obtain rfl := Option.some.inj hn
  have ht := total_call (p := p) hz
  exact ⟨S.start x, by simp, ht ▸ h⟩

theorem Watch.outcome {Q : Out → G → W → M → Prop} {i : ℕ} {p : Pool C R W Call Out}
    (hp : D.Holds post p) (h : D.Watch Q i p) {t : Thread C R Call Out}
    (ht : p.threads[i]? = some t) {a : Out} (ha : t.outcome = some a) :
    Q a (D.of t) p.world (D.total p) := by
  obtain ⟨t', ht', hk⟩ := h
  obtain rfl : t' = t := Option.some.inj (ht' ▸ ht)
  rw [Thread.rest_of_outcome ha] at hk
  exact Stays.now hk hp.inv

/-! Other surroundings: only `Sound` minds the acts -/

section WithActs
variable {Act' : Type} (act' : Act' → W → W)

def withActs (D : Discipline S G M) : Discipline (S.withActs act') G M where
  toAccount := D.toAccount
  inv := D.inv
  rely := D.rely
  may := D.may
  rely_refl := D.rely_refl
  rely_trans := D.rely_trans

theorem Upholds.withActs {Q : α → G → W → M → Prop} {p : Prog C R α}
    (h : D.Upholds Q p g w m) : (D.withActs act').Upholds Q p g w m := by
  induction p generalizing g w m with
  | pure a => exact h
  | step c k ih =>
    intro w' f hr hi hm
    obtain ⟨hi', hr', hk⟩ := h w' f hr hi hm
    exact ⟨hi', hr', ih _ hk⟩

theorem Callable.withActs {x : Call} (h : D.Callable post x) :
    (D.withActs act').Callable post x :=
  ⟨h.1, fun w m hi => (h.2 w m hi).withActs act'⟩

end WithActs

/-! Two disciplines at once -/

section Prod
variable {G₁ G₂ M₁ M₂ : Type} [AddCommMonoid M₁] [AddCommMonoid M₂]

/-- Both accounts side by side; each discipline minds its own. -/
def prod (D₁ : Discipline S G₁ M₁) (D₂ : Discipline S G₂ M₂) :
    Discipline S (G₁ × G₂) (M₁ × M₂) where
  start x := (D₁.start x, D₂.start x)
  next g c r := (D₁.next g.1 c r, D₂.next g.2 c r)
  value g := (D₁.value g.1, D₂.value g.2)
  inv w m := D₁.inv w m.1 ∧ D₂.inv w m.2
  rely w m w' m' := D₁.rely w m.1 w' m'.1 ∧ D₂.rely w m.2 w' m'.2
  may w m g c := D₁.may w m.1 g.1 c ∧ D₂.may w m.2 g.2 c
  rely_refl w m := ⟨D₁.rely_refl w m.1, D₂.rely_refl w m.2⟩
  rely_trans h h' := ⟨D₁.rely_trans h.1 h'.1, D₂.rely_trans h.2 h'.2⟩

variable {D₁ : Discipline S G₁ M₁} {D₂ : Discipline S G₂ M₂} {g₁ : G₁} {g₂ : G₂} {m₁ : M₁}
  {m₂ : M₂}

theorem of_prod (t : Thread C R Call Out) : (D₁.prod D₂).of t = (D₁.of t, D₂.of t) := by
  suffices h : ∀ (log : List (Event C R)) (g₁ : G₁) (g₂ : G₂),
      log.foldl (fun g e => (D₁.prod D₂).next g e.1 e.2) (g₁, g₂) =
        (log.foldl (fun g e => D₁.next g e.1 e.2) g₁,
          log.foldl (fun g e => D₂.next g e.1 e.2) g₂) from h t.log _ _
  intro log
  induction log with
  | nil => exact fun _ _ => rfl
  | cons e log ih => exact fun _ _ => ih _ _

theorem total_prod (p : Pool C R W Call Out) :
    (D₁.prod D₂).total p = (D₁.total p, D₂.total p) := by
  unfold Account.total
  induction p.threads with
  | nil => rfl
  | cons t ts ih =>
    rw [List.map_cons, List.sum_cons, ih, of_prod]
    rfl

theorem Neutral.prod {c : C} (h₁ : D₁.Neutral g₁ c) (h₂ : D₂.Neutral g₂ c) :
    (D₁.prod D₂).Neutral (g₁, g₂) c := by
  intro w f hi hm
  obtain ⟨hg₁, hi₁, hr₁⟩ := h₁ w f.1 hi.1 hm.1
  obtain ⟨hg₂, hi₂, hr₂⟩ := h₂ w f.2 hi.2 hm.2
  exact ⟨Prod.ext hg₁ hg₂, ⟨hi₁, hi₂⟩, ⟨hr₁, hr₂⟩⟩

/-- A program that upholds each discipline upholds both. -/
theorem Upholds.prod {Q₁ : α → G₁ → W → M₁ → Prop} {Q₂ : α → G₂ → W → M₂ → Prop}
    {p : Prog C R α} (h₁ : D₁.Upholds Q₁ p g₁ w m₁) (h₂ : D₂.Upholds Q₂ p g₂ w m₂) :
    (D₁.prod D₂).Upholds (fun a g w m => Q₁ a g.1 w m.1 ∧ Q₂ a g.2 w m.2) p (g₁, g₂) w
      (m₁, m₂) := by
  induction p generalizing g₁ g₂ w m₁ m₂ with
  | pure a =>
    intro w' m' hr hi
    exact ⟨h₁ w' m'.1 hr.1 hi.1, h₂ w' m'.2 hr.2 hi.2⟩
  | step c k ih =>
    intro w' f hr hi hm
    obtain ⟨hi₁, hr₁, hk₁⟩ := h₁ w' f.1 hr.1 hi.1 hm.1
    obtain ⟨hi₂, hr₂, hk₂⟩ := h₂ w' f.2 hr.2 hi.2 hm.2
    exact ⟨⟨hi₁, hi₂⟩, ⟨hr₁, hr₂⟩, ih _ hk₁ hk₂⟩

theorem Keeps.prod {x : ProgE C R ε α} {Q₁ : α → G₁ → W → M₁ → Prop}
    {Q₂ : α → G₂ → W → M₂ → Prop} {E₁ : ε → G₁ → W → M₁ → Prop} {E₂ : ε → G₂ → W → M₂ → Prop}
    (h₁ : D₁.Keeps x g₁ w m₁ Q₁ E₁) (h₂ : D₂.Keeps x g₂ w m₂ Q₂ E₂) :
    (D₁.prod D₂).Keeps x (g₁, g₂) w (m₁, m₂) (fun a g w m => Q₁ a g.1 w m.1 ∧ Q₂ a g.2 w m.2)
      (fun e g w m => E₁ e g.1 w m.1 ∧ E₂ e g.2 w m.2) := by
  refine ⟨Upholds.mono (Upholds.prod h₁.upholds h₂.upholds) fun r g w m _ h => ?_⟩
  cases r <;> exact h

variable {post₁ : Call → Out → G₁ → W → M₁ → Prop} {post₂ : Call → Out → G₂ → W → M₂ → Prop}
  {ok₁ ok₂ : Pool C R W Call Out → Label Call Act → Prop}

theorem Callable.prod {x : Call} (h₁ : D₁.Callable post₁ x) (h₂ : D₂.Callable post₂ x) :
    (D₁.prod D₂).Callable (fun x o g w m => post₁ x o g.1 w m.1 ∧ post₂ x o g.2 w m.2) x := by
  refine ⟨Prod.ext h₁.1 h₂.1, fun w m hi => ?_⟩
  exact Upholds.prod (h₁.2 w m.1 hi.1) (h₂.2 w m.2 hi.2)

theorem Sound.prod (h₁ : D₁.Sound post₁ ok₁) (h₂ : D₂.Sound post₂ ok₂) :
    (D₁.prod D₂).Sound (fun x o g w m => post₁ x o g.1 w m.1 ∧ post₂ x o g.2 w m.2)
      (fun p l => ok₁ p l ∧ ok₂ p l) where
  call p x hok := (h₁.call p x hok.1).prod (h₂.call p x hok.2)
  fork c x hx := (h₁.fork c x hx).prod (h₂.fork c x hx)
  act p a m hok hi := by
    obtain ⟨hi₁, hr₁⟩ := h₁.act p a m.1 hok.1 hi.1
    obtain ⟨hi₂, hr₂⟩ := h₂.act p a m.2 hok.2 hi.2
    exact ⟨⟨hi₁, hi₂⟩, ⟨hr₁, hr₂⟩⟩
  step p i x log c k hok ht := by
    rw [total_prod, of_prod]
    exact ⟨h₁.step p i x log c k hok.1 ht, h₂.step p i x log c k hok.2 ht⟩

end Prod

end Discipline
end Awaiting
