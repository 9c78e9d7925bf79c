import WhisprMedia.SemaphoreCount

/-! Slots of the semaphore that a crash has leaked. The counter keeps what the dead uploads have
added until Redis drops the key; each attempt, a refused one too, sets the key's time anew. -/
namespace WhisprMedia
open Awaiting MediaService

/-- The time of the user's counter has come. -/
def Overdue (userId : String) (w : World) : Prop :=
  ((w.semaphores (semaphoreKey userId)).bind Counter.deadline).any (· ≤ w.now) = true

instance (userId : String) (w : World) : Decidable (Overdue userId w) :=
  inferInstanceAs (Decidable (_ = _))

/-- Redis finds an overdue counter gone: no command runs, and no timer fires, before it is
dropped. -/
def Prompt (userId : String) (p : ServicePool) : Label Call Act → Prop
  | .step _ | .act (.refreshSemaphoreTtl _) => ¬ Overdue userId p.world
  | _ => True

instance (userId : String) (p : ServicePool) (l : Label Call Act) :
    Decidable (Prompt userId p l) := by
  unfold Prompt
  split <;> infer_instance

/-- What is left of a pool when processes die: the stores, and the requests elsewhere. -/
structure Crashed (p p' : ServicePool) : Prop where
  world : p'.world = p.world
  threads : p'.threads.Sublist p.threads

/-- The upload of thread `i`, about to issue its INCR, is admitted and never answered with 429. -/
def Admitted (env : Env) (userId : String) (p : ServicePool) (i : ℕ) : Prop :=
  ∀ q, (service env).next p (.step i) = some q →
    (∃ t, q.threads[i]? = some t ∧ (phases userId).of t = .admitted) ∧
    ∀ q', (service env).Runs (Prompt userId) q q' →
      ∀ t file context thumbnailFile sharedWith message, q'.threads[i]? = some t →
      t.call = .upload userId file context thumbnailFile sharedWith →
      t.outcome ≠ some (.error (.tooManyRequests message))

section Steps
variable {env : Env} {userId : String} {p q : ServicePool} {l : Label Call Act}

theorem Genuine.crashed (hp : Genuine env p) (h : Crashed p q) : Genuine env q :=
  fun t ht => hp t (h.threads.subset ht)

/-- No command raises the counter by more than it raises the number of the slots held: an INCR
comes from a request that holds none. -/
theorem command_excess {g : Phase} {c : Cmd} {w : World}
    (hincr : c = .incr (semaphoreKey userId) → g = .outside) {leaked others : ℕ}
    (h : semaphoreCount w userId ≤ leaked + (others + if g = .outside then 0 else 1 : ℕ)) :
    semaphoreCount (env.exec c w).2 userId ≤
      leaked + (others + if Phase.next userId g c (env.exec c w).1 = .outside then 0 else 1 : ℕ) := by
  by_cases hc : c.semaphore? = some (semaphoreKey userId)
  · cases c with
    | incr key =>
      obtain rfl := Option.some.inj hc
      obtain rfl := hincr rfl
      obtain ⟨u, he, hu⟩ := @exec_incr env userId w
      have hnext : Phase.next userId .outside (.incr (semaphoreKey userId))
          (.ok (semaphoreCount w userId + 1)) ≠ .outside := by
        simp only [Phase.next, ↓reduceIte]
        split <;> decide
      rw [he, hu, if_neg hnext]
      rw [if_pos rfl] at h
      omega
    | decr key =>
      obtain rfl := Option.some.inj hc
      obtain ⟨u, he, hu⟩ := @exec_decr env userId w
      have hnext : Phase.next userId g (.decr (semaphoreKey userId))
          (.ok (semaphoreCount w userId - 1)) = .outside := if_pos rfl
      rw [he, hu, if_pos hnext]
      split at h <;> omega
    | del key =>
      obtain rfl := Option.some.inj hc
      obtain ⟨u, he, hu⟩ := @exec_del env userId w
      rw [he, hu]
      omega
    | expire key seconds =>
      obtain rfl := Option.some.inj hc
      obtain ⟨u, he, hu⟩ := @exec_expire env userId w seconds
      -- the request enters, or stays where it is
      have hnext : (Phase.next userId g (.expire (semaphoreKey userId) seconds) (.ok ()) = .outside) ↔
          g = .outside := by
        cases g <;> simp [Phase.next]
      rw [he, hu]
      simp only [hnext]
      exact h
    | _ => exact absurd hc (by simp [Cmd.semaphore?])
  · rw [semaphoreCount_of_other hc, phase_next_of_other hc]
    exact h

/-- No step of a run does either. -/
theorem excess_step (hp : Genuine env p) (hn : (service env).next p l = some q) {leaked : ℕ}
    (h : semaphoreCount p.world userId ≤ leaked + slotsHeld userId p) :
    semaphoreCount q.world userId ≤ leaked + slotsHeld userId q := by
  have hstart (xs : List Call) : (xs.map (service env).start).countP (holdsSlot userId) = 0 := by
    refine List.countP_eq_zero.mpr fun t ht => ?_
    obtain ⟨y, -, rfl⟩ := List.mem_map.mp ht
    simp [holdsSlot, Account.of, phases, System.start]
  rcases System.next_cases hn with ⟨x, -, rfl⟩ | ⟨a, -, rfl⟩ |
    ⟨i, pre, post, x, log, c, k, rfl, hts, hlen, rfl⟩
  · have hnew : [(service env).start x].countP (holdsSlot userId) = 0 := hstart [x]
    have hslots : slotsHeld userId { p with threads := p.threads ++ [(service env).start x] } =
        slotsHeld userId p := by
      unfold slotsHeld
      rw [List.countP_append, hnew, Nat.add_zero]
    rw [hslots]
    exact h
  · have hslots : slotsHeld userId { p with world := (service env).act a p.world } =
        slotsHeld userId p := rfl
    rw [hslots]
    rcases lossy_act_count (.act a) p.world userId with hc | hc
    · exact hc ▸ h
    · have hzero : semaphoreCount ((service env).act a p.world) userId = 0 := hc
      rw [hzero]
      omega
  · -- the other threads hold what they held
    have hslots (t : ServiceThread) (u : World) (ts : List ServiceThread)
        (hts' : ts.countP (holdsSlot userId) = 0) :
        slotsHeld userId ⟨u, pre ++ t :: post ++ ts⟩ = (pre ++ post).countP (holdsSlot userId) +
          if (phases userId).of t = .outside then 0 else 1 := by
      unfold slotsHeld
      rw [List.countP_append, List.countP_append, List.countP_cons, List.countP_append, hts']
      unfold holdsSlot
      by_cases ht : (phases userId).of t = .outside
      · simp [ht]
      · simp [ht]
        omega
    have hbefore := hslots ⟨x, log, .step c k⟩ p.world [] rfl
    rw [List.append_nil, ← hts] at hbefore
    have hbefore : slotsHeld userId p = _ := hbefore
    rw [hslots _ _ _ (hstart _), (phases userId).of_step x log ⟨c, _⟩ _ (.step c k)]
    rw [hbefore] at h
    refine command_excess (fun hc => ?_) h
    have hnext : p.nextCmd i = some (.incr (semaphoreKey userId)) := by
      simp [Pool.nextCmd, hts, ← hlen, hc]
    obtain ⟨x', k', hthread⟩ := thread_at_incr hp hnext
    have hat : p.threads[i]? = some ⟨x, log, .step c k⟩ := by simp [hts, ← hlen]
    obtain ⟨-, rfl, -⟩ := Thread.mk.inj (Option.some.inj (hat.symm.trans hthread))
    rfl

theorem excess_runs {ok : ServicePool → Label Call Act → Prop} (hp : Genuine env p)
    (h : (service env).Runs ok p q) {leaked : ℕ}
    (hcount : semaphoreCount p.world userId ≤ leaked + slotsHeld userId p) :
    semaphoreCount q.world userId ≤ leaked + slotsHeld userId q := by
  induction h with
  | refl => exact hcount
  | tail hr _ hn ih => exact excess_step (hp.runs hr) hn ih

/-- Once the time of the counter has come, it is overdue until it is dropped. -/
theorem overdue_act {a : Act} {w : World} (h : Overdue userId w)
    (ha : ∀ key, a ≠ .refreshSemaphoreTtl key) :
    Overdue userId (a.apply w) ∨ semaphoreCount (a.apply w) userId = 0 := by
  cases a with
  | tick ms =>
    left
    obtain ⟨t, ht, hle⟩ := (Option.any_eq_true _ _).mp h
    have hlater : t ≤ w.now + ms := by
      have hnow := of_decide_eq_true hle
      omega
    exact (Option.any_eq_true _ _).mpr ⟨t, ht, decide_eq_true hlater⟩
  | expireSemaphore key =>
    by_cases hk : semaphoreKey userId = key
    · subst hk
      right
      have hdropped : (Act.expireSemaphore (semaphoreKey userId)).apply w =
          { w with semaphores := Function.update w.semaphores (semaphoreKey userId) none } := if_pos h
      simp [hdropped, semaphoreCount]
    · left
      simp only [Act.apply]
      split
      · simpa [Overdue, hk] using h
      · exact h
  | refreshSemaphoreTtl key => exact absurd rfl (ha key)
  | expireCooldown key =>
    left
    simp only [Act.apply]
    split <;> exact h
  | _ => exact Or.inl h

/-- From then on the counter counts the slots held, at most. -/
theorem healed_runs (hp : Genuine env p) (h : (service env).Runs (Prompt userId) p q)
    (hover : Overdue userId p.world) :
    Overdue userId q.world ∨ semaphoreCount q.world userId ≤ slotsHeld userId q := by
  induction h with
  | refl => exact Or.inl hover
  | @tail q r l hr hok hn ih =>
    have hkeep (hcount : semaphoreCount q.world userId ≤ slotsHeld userId q) :
        semaphoreCount r.world userId ≤ slotsHeld userId r := by
      have hexcess : semaphoreCount r.world userId ≤ (0 : ℕ) + slotsHeld userId r :=
        excess_step (hp.runs hr) hn (by omega)
      omega
    rcases ih with hq | hcount
    · cases l with
      | call x =>
        obtain rfl := (Option.some.inj hn).symm
        exact Or.inl hq
      | step i => exact absurd hq hok
      | act a =>
        obtain rfl := (Option.some.inj hn).symm
        rcases overdue_act (a := a) hq (fun key ha => by
          subst ha
          exact hok hq) with hq' | hzero
        · exact Or.inl hq'
        · refine Or.inr ?_
          have hzero : semaphoreCount ((service env).act a q.world) userId = 0 := hzero
          show semaphoreCount ((service env).act a q.world) userId ≤ _
          omega
    · exact Or.inr (hkeep hcount)

end Steps

/-- After a crash that has left no upload of the user alive, an upload that starts while none of
the user's is running is admitted, in every run in which the counter's time has come at some
moment since the crash, or in which at most two slots have leaked. -/
theorem leaked_slots_heal (env : Env) (userId : String) (w : World) (p₀ p₁ p : ServicePool)
    (h₀ : (service env).Runs (fun _ _ => True) ⟨w, []⟩ p₀) (hcrash : Crashed p₀ p₁)
    (hdead : slotsHeld userId p₁ = 0) (h : (service env).Runs (Prompt userId) p₁ p)
    (hheal : semaphoreCount p₁.world userId ≤ 2 ∨
      ∃ p₂, (service env).Runs (Prompt userId) p₁ p₂ ∧ (service env).Runs (Prompt userId) p₂ p ∧
        Overdue userId p₂.world)
    (hrest : slotsHeld userId p = 0) (i : ℕ)
    (hnext : p.nextCmd i = some (.incr (semaphoreKey userId))) (hok : Prompt userId p (.step i)) :
    Admitted env userId p i := by
  intro q hq
  have hp₁ : Genuine env p₁ := (genuine_empty.runs h₀).crashed hcrash
  suffices hcount : semaphoreCount p.world userId ≤ 2 from
    admitted_of_count (hp₁.runs h) hnext hcount hq
  rcases hheal with hfew | ⟨p₂, h₁₂, h₂, hover⟩
  · have hexcess : semaphoreCount p.world userId ≤ (2 : ℕ) + slotsHeld userId p :=
      excess_runs hp₁ h (by omega)
    omega
  · rcases healed_runs (hp₁.runs h₁₂) h₂ hover with hlate | hcount
    · exact absurd hlate hok
    · omega

/-- Three uploads have acquired the semaphore when their process dies. -/
def threeHolders : List (Label Call Act) :=
  [.call iconUpload, .call iconUpload, .call iconUpload, .step 0, .step 0, .step 1, .step 1,
    .step 2, .step 2]

/-- 20 minutes later the user is refused, and is about to try again after another 20. -/
def retryAfterRefusal : List (Label Call Act) :=
  [.act (.tick 1200000), .call iconUpload, .step 0, .step 0, .step 0, .act (.tick 1200000),
    .call iconUpload]

/-- The attempts of the user keep the leaked slots alive: an attempt 40 minutes after the crash is
answered with 429, as the one before it has set the time of the key anew. -/
theorem retries_keep_leaked_slots :
    ¬ ∀ (env : Env) (userId : String) (w : World) (p₀ p₁ p : ServicePool),
      (service env).Runs (fun _ _ => True) ⟨w, []⟩ p₀ → Crashed p₀ p₁ → slotsHeld userId p₁ = 0 →
      (service env).Runs (Prompt userId) p₁ p →
      p₁.world.now + (SEMAPHORE_TTL_SECONDS : ℤ) * 1000 ≤ p.world.now → slotsHeld userId p = 0 →
      ∀ i, p.nextCmd i = some (.incr (semaphoreKey userId)) → Prompt userId p (.step i) →
      Admitted env userId p i := by
  intro hall
  have hplay : ((service exampleEnv).play (fun _ _ => True) ⟨World.empty, []⟩ threeHolders).any
      (fun p₀ => ((service exampleEnv).play (Prompt (exampleId 7)) ⟨p₀.world, []⟩
        retryAfterRefusal).any fun p =>
          p₀.world.now + (SEMAPHORE_TTL_SECONDS : ℤ) * 1000 ≤ p.world.now ∧
          slotsHeld (exampleId 7) p = 0 ∧
          p.nextCmd 1 = some (.incr (semaphoreKey (exampleId 7))) ∧
          Prompt (exampleId 7) p (.step 1) ∧
          ((service exampleEnv).next p (.step 1)).any fun q =>
            ((service exampleEnv).play (Prompt (exampleId 7)) q [.step 1, .step 1]).any fun q' =>
              (q'.threads[1]?.map fun t => (t.call, t.outcome)) = some (iconUpload, some (.error
                (.tooManyRequests "You have reached the maximum of 3 concurrent uploads")))) =
      true := by
    decide +kernel
  obtain ⟨p₀, h₀, hplay⟩ := (Option.any_eq_true _ _).mp hplay
  obtain ⟨p, h, hplay⟩ := (Option.any_eq_true _ _).mp hplay
  obtain ⟨hlate, hrest, hnext, hok, hplay⟩ := of_decide_eq_true hplay
  obtain ⟨q, hq, hplay⟩ := (Option.any_eq_true _ _).mp hplay
  obtain ⟨q', hq', hplay⟩ := (Option.any_eq_true _ _).mp hplay
  obtain ⟨t, ht, hpair⟩ := Option.map_eq_some_iff.mp (of_decide_eq_true hplay)
  obtain ⟨hcall, hout⟩ := Prod.mk.inj hpair
  have hadmitted := hall exampleEnv (exampleId 7) World.empty p₀ ⟨p₀.world, []⟩ p
    (System.runs_of_play h₀) ⟨rfl, List.nil_sublist _⟩ rfl (System.runs_of_play h) hlate hrest 1
    hnext hok
  exact (hadmitted q hq).2 q' (System.runs_of_play hq') t _ _ _ _ _ ht hcall hout

theorem leaked_slots_heal_after_ttl : ∃ p₀ p₁ p : ServicePool,
    (service exampleEnv).Runs (fun _ _ => True) ⟨World.empty, []⟩ p₀ ∧ Crashed p₀ p₁ ∧
    semaphoreCount p₁.world (exampleId 7) = 3 ∧
    (service exampleEnv).Runs (Prompt (exampleId 7)) p₁ p ∧
    Admitted exampleEnv (exampleId 7) p 0 := by
  have hplay : ((service exampleEnv).play (fun _ _ => True) ⟨World.empty, []⟩ threeHolders).any
      (fun p₀ => semaphoreCount p₀.world (exampleId 7) = 3 ∧
        ((service exampleEnv).play (Prompt (exampleId 7)) ⟨p₀.world, []⟩
          [.act (.tick 1800000)]).any fun p₂ => Overdue (exampleId 7) p₂.world ∧
          ((service exampleEnv).play (Prompt (exampleId 7)) p₂
            [.act (.expireSemaphore (semaphoreKey (exampleId 7))), .call iconUpload]).any fun p =>
              slotsHeld (exampleId 7) p = 0 ∧
              p.nextCmd 0 = some (.incr (semaphoreKey (exampleId 7))) ∧
              Prompt (exampleId 7) p (.step 0)) = true := by
    decide +kernel
  obtain ⟨p₀, h₀, hplay⟩ := (Option.any_eq_true _ _).mp hplay
  obtain ⟨hcount, hplay⟩ := of_decide_eq_true hplay
  obtain ⟨p₂, h₂, hplay⟩ := (Option.any_eq_true _ _).mp hplay
  obtain ⟨hover, hplay⟩ := of_decide_eq_true hplay
  obtain ⟨p, h, hplay⟩ := (Option.any_eq_true _ _).mp hplay
  obtain ⟨hrest, hnext, hok⟩ := of_decide_eq_true hplay
  have h₀ := System.runs_of_play h₀
  have h₂ := System.runs_of_play h₂
  have h := System.runs_of_play h
  have hcrash : Crashed p₀ ⟨p₀.world, []⟩ := ⟨rfl, List.nil_sublist _⟩
  exact ⟨p₀, _, p, h₀, hcrash, hcount, h₂.trans h,
    leaked_slots_heal exampleEnv (exampleId 7) World.empty p₀ _ p h₀ hcrash rfl (h₂.trans h)
      (Or.inr ⟨p₂, h₂, h, hover⟩) hrest 0 hnext hok⟩

end WhisprMedia
