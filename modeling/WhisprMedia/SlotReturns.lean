import WhisprMedia.QuotaConservation
import WhisprMedia.SemaphoreCount
import WhisprMedia.SerialRuns

/-! Slots given back. Whatever the commands of one upload are answered, its log has as many DECRs
of the user's counter as INCRs, unless the EXPIRE between acquiring and holding has thrown: this
command stands after the INCR and before the `try` whose `finally` releases. -/
namespace WhisprMedia
open Awaiting MediaService

/-- How often a command was issued. -/
def issued (c : Cmd) (log : ServiceLog) : ℕ := log.countP fun e => e.1 = c

/-- The command was answered with a value. -/
def wasServed (e : Event Cmd Cmd.Reply) : Bool := (e.2 : Except String e.1.Value).isOk

/-- INCR, DECR and DEL of the user's counter are served. -/
def CounterServed (userId : String) (log : ServiceLog) : Prop :=
  ∀ e ∈ log, e.1 ∈ [Cmd.incr (semaphoreKey userId), .decr (semaphoreKey userId),
    .del (semaphoreKey userId)] → wasServed e = true

/-- No EXPIRE of the user's counter has thrown. -/
def ExpireServed (userId : String) (log : ServiceLog) : Prop :=
  ∀ e ∈ log, e.1 = .expire (semaphoreKey userId) SEMAPHORE_TTL_SECONDS → wasServed e = true

instance (userId : String) (log : ServiceLog) : Decidable (CounterServed userId log) :=
  inferInstanceAs (Decidable (∀ e ∈ log, _))

instance (userId : String) (log : ServiceLog) : Decidable (ExpireServed userId log) :=
  inferInstanceAs (Decidable (∀ e ∈ log, _))

section Logs
variable {userId : String} {l₁ l₂ log : ServiceLog} {c : Cmd}

theorem issued_append : issued c (l₁ ++ l₂) = issued c l₁ + issued c l₂ := List.countP_append

theorem counterServed_append :
    CounterServed userId (l₁ ++ l₂) ↔ CounterServed userId l₁ ∧ CounterServed userId l₂ := by
  unfold CounterServed
  exact List.forall_mem_append

theorem expireServed_append :
    ExpireServed userId (l₁ ++ l₂) ↔ ExpireServed userId l₁ ∧ ExpireServed userId l₂ := by
  unfold ExpireServed
  exact List.forall_mem_append

/-- A part of an upload that leaves the user's counter alone. -/
theorem aside_of_issues {α : Type} {x : Svc α} {r : Except Err α}
    (hx : x.Issues fun c => c.semaphore? ≠ some (semaphoreKey userId))
    (h : x.run.Follows log (.pure r)) :
    issued (.incr (semaphoreKey userId)) log = 0 ∧ issued (.decr (semaphoreKey userId)) log = 0 ∧
      ExpireServed userId log := by
  have hlog := (Prog.Issues.of_follows hx h).1
  have hnone (c : Cmd) (hc : c.semaphore? = some (semaphoreKey userId)) : issued c log = 0 := by
    apply List.countP_eq_zero.mpr
    intro e he hec
    have hec : e.1 = c := by simpa using hec
    exact hlog e he (hec ▸ hc)
  refine ⟨hnone _ rfl, hnone _ rfl, ?_⟩
  intro e he hec
  exact absurd (congrArg Cmd.semaphore? hec) (hlog e he)

/-- A command of the counter that has answered. -/
theorem served_answer {α : Type} {c : Cmd} {f : c.Value → Svc α} {r : Except Err α}
    (hc : c ∈ [Cmd.incr (semaphoreKey userId), .decr (semaphoreKey userId),
      .del (semaphoreKey userId)])
    (h : (await c >>= f).run.Follows log (.pure r)) (hs : CounterServed userId log) :
    ∃ v rest, log = ⟨c, .ok v⟩ :: rest ∧ (f v).run.Follows rest (.pure r) ∧
      CounterServed userId rest := by
  rcases ProgE.follows_of_bind h with ⟨e, h₁, -⟩ | ⟨v, l₁, l₂, rfl, h₁, h₂⟩
  · -- an error of the command would not be served
    obtain ⟨a, rfl, hk⟩ := ProgE.follows_of_issue h₁
    cases a with
    | ok v => exact absurd hk (by rintro ⟨⟩)
    | error message => exact absurd (hs _ List.mem_cons_self hc) (by simp [wasServed, Except.isOk,
        Except.toBool])
  · rw [follows_await h₁] at hs ⊢
    exact ⟨v, l₂, rfl, h₂, (counterServed_append.mp hs).2⟩

end Logs

section Upload
variable {userId : String} {log : ServiceLog}

/-- An acquire has taken a slot and has its EXPIRE served, or it throws: after a failed EXPIRE with
the slot, and after a rejection without it. -/
theorem acquireSemaphore_slots {r : Except Err Unit}
    (h : (acquireSemaphore userId).run.Follows log (.pure r)) (hs : CounterServed userId log) :
    issued (.incr (semaphoreKey userId)) log = 1 ∧
      ((r = .ok () ∧ issued (.decr (semaphoreKey userId)) log = 0 ∧ ExpireServed userId log) ∨
        (∃ e, r = .error e) ∧
          (issued (.decr (semaphoreKey userId)) log = 1 ↔ ExpireServed userId log)) := by
  obtain ⟨count, rest, rfl, h, hs⟩ := served_answer (by simp) h hs
  rcases ProgE.follows_of_bind h with ⟨e, h₁, rfl⟩ | ⟨⟨⟩, l₁, l₂, rfl, h₁, h₂⟩
  · -- the EXPIRE throws, and nothing follows it
    obtain ⟨a, rfl, hk⟩ := ProgE.follows_of_issue h₁
    cases a with
    | ok v => exact absurd hk (by rintro ⟨⟩)
    | error message =>
      refine ⟨by simp [issued], Or.inr ⟨⟨e, rfl⟩, ?_⟩⟩
      simp [issued, ExpireServed, wasServed, Except.isOk, Except.toBool]
  · rw [follows_await h₁] at hs ⊢
    have hs := (counterServed_append.mp hs).2
    split at h₂
    · -- over the limit: the DECR, and then the rejection
      obtain ⟨v, rest, rfl, h₃, -⟩ := served_answer (by simp) h₂ hs
      obtain ⟨rfl, hr⟩ := Prog.Follows.of_pure h₃
      refine ⟨by simp [issued], Or.inr ⟨⟨_, (Prog.pure.inj hr)⟩, ?_⟩⟩
      simp [issued, ExpireServed, wasServed, Except.isOk, Except.toBool]
    · obtain ⟨rfl, hr⟩ := Prog.Follows.of_pure h₂
      refine ⟨by simp [issued], Or.inl ⟨Prog.pure.inj hr, by simp [issued], ?_⟩⟩
      simp [ExpireServed, wasServed, Except.isOk, Except.toBool]

theorem releaseSemaphore_slots {r : Except Err Unit}
    (h : (releaseSemaphore userId).run.Follows log (.pure r)) (hs : CounterServed userId log) :
    issued (.incr (semaphoreKey userId)) log = 0 ∧ issued (.decr (semaphoreKey userId)) log = 1 ∧
      ExpireServed userId log := by
  obtain ⟨remaining, rest, rfl, h, hs⟩ := served_answer (by simp) h hs
  split at h
  · obtain ⟨v, rfl, -⟩ := ProgE.follows_of_issue h
    simp [issued, ExpireServed]
  · obtain ⟨rfl, -⟩ := Prog.Follows.of_pure h
    simp [issued, ExpireServed]

end Upload

/-- Whatever the awaited steps of an upload answer, it gives its slot back exactly once, if and only
if the EXPIRE of its acquire does not throw. -/
theorem upload_returns_slot (env : Env) (ownerId : String) (file : File) (context : MediaContext)
    (thumbnailFile : Option File) (sharedWith : Option (List String)) (log : ServiceLog)
    (r : Except Err UploadMediaResponseDto)
    (h : (upload env ownerId file context thumbnailFile sharedWith).run.Follows log (.pure r))
    (hs : CounterServed ownerId log) :
    issued (.decr (semaphoreKey ownerId)) log = issued (.incr (semaphoreKey ownerId)) log ↔
      ExpireServed ownerId log := by
  rcases ProgE.follows_of_bind h with ⟨e, h₁, -⟩ | ⟨⟨⟩, l₁, l₂, rfl, h₁, h₂⟩
  · -- the acquire throws: nothing is held, and nothing is released
    obtain ⟨hincr, ⟨hr, -⟩ | ⟨-, hdecr⟩⟩ := acquireSemaphore_slots h₁ hs
    · exact absurd hr (by simp)
    · rw [hincr]
      exact hdecr
  · obtain ⟨hs₁, hs₂⟩ := counterServed_append.mp hs
    obtain ⟨hincr₁, ⟨-, hdecr₁, hexp₁⟩ | ⟨⟨e, hr⟩, -⟩⟩ := acquireSemaphore_slots h₁ hs₁
    · obtain ⟨l₃, l₄, o, rfl, hheld, hrel⟩ := ProgE.follows_of_ensuring h₂
      obtain ⟨hs₃, hs₄⟩ := counterServed_append.mp hs₂
      obtain ⟨hincr₃, hdecr₃, hexp₃⟩ := aside_of_issues
        (uploadHeld_issues ownerId file context thumbnailFile sharedWith) hheld
      -- the release runs after a value and after an error
      obtain ⟨hincr₄, hdecr₄, hexp₄⟩ : issued (.incr (semaphoreKey ownerId)) l₄ = 0 ∧
          issued (.decr (semaphoreKey ownerId)) l₄ = 1 ∧ ExpireServed ownerId l₄ := by
        rcases hrel with ⟨e, hrel, -⟩ | ⟨hrel, -⟩
        · exact releaseSemaphore_slots hrel hs₄
        · exact releaseSemaphore_slots hrel hs₄
      simp only [issued_append, expireServed_append]
      constructor
      · intro _
        exact ⟨hexp₁, hexp₃, hexp₄⟩
      · intro _
        omega
    · exact absurd hr (by simp)

/-- The log of an upload that is refused for its group icon, with the answers of its commands. -/
def iconLog : ServiceLog :=
  (Prog.run exampleEnv.exec (upload exampleEnv (exampleId 7) oneByte .GROUP_ICON none none).run
    World.empty).log

theorem upload_returns_slot_refused :
    issued (.decr (semaphoreKey (exampleId 7))) iconLog =
      issued (.incr (semaphoreKey (exampleId 7))) iconLog := by
  have hs : CounterServed (exampleId 7) iconLog := by decide +kernel
  have he : ExpireServed (exampleId 7) iconLog := by decide +kernel
  exact (upload_returns_slot exampleEnv (exampleId 7) oneByte .GROUP_ICON none none iconLog _
    (Prog.follows_run exampleEnv.exec _ World.empty) hs).mpr he

/-- The slot is lost when Redis does not serve the EXPIRE: the counter stays incremented, and
without a time to live. -/
theorem slot_not_returned :
    ¬ ∀ (env : Env) (ownerId : String) (file : File) (context : MediaContext)
      (thumbnailFile : Option File) (sharedWith : Option (List String)) (log : ServiceLog)
      (r : Except Err UploadMediaResponseDto),
      (upload env ownerId file context thumbnailFile sharedWith).run.Follows log (.pure r) →
      CounterServed ownerId log →
      issued (.decr (semaphoreKey ownerId)) log = issued (.incr (semaphoreKey ownerId)) log := by
  intro hall
  have h := hall exampleEnv (exampleId 7) oneByte .MESSAGE none none
    [⟨.incr (semaphoreKey (exampleId 7)), .ok 1⟩,
      ⟨.expire (semaphoreKey (exampleId 7)) SEMAPHORE_TTL_SECONDS, .error "connection lost"⟩] _
    (.step (.step (.done _))) (by decide +kernel)
  exact absurd h (by decide +kernel)

end WhisprMedia
