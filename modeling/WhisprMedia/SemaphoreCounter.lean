import WhisprMedia.ServiceRules

/-! The counter of the upload semaphore. A request is followed from its INCR to its DECR, and a
law between the counter and the requests in between is checked against the four commands. -/
namespace WhisprMedia
open Awaiting MediaService

/-- The value of a user's counter; a key that is not set counts as 0. -/
def semaphoreCount (w : World) (userId : String) : Int :=
  ((w.semaphores (semaphoreKey userId)).getD ⟨0, none⟩).value

/-- How far a request has come with the semaphore of one user. -/
inductive Phase where
  | outside
  /-- INCR has answered more than the limit. -/
  | refused
  /-- INCR has answered at most the limit. -/
  | admitted
  /-- `acquireSemaphore` has returned and `releaseSemaphore` has not yet issued its DECR. -/
  | inside
  deriving DecidableEq

def Phase.next (userId : String) (g : Phase) (c : Cmd) (r : c.Reply) : Phase :=
  match c, r with
  | .incr key, .ok count =>
    if key = semaphoreKey userId then
      if (count : Int) > MAX_CONCURRENT_UPLOADS then .refused else .admitted
    else g
  | .expire key _, .ok _ => if key = semaphoreKey userId ∧ g = .admitted then .inside else g
  | .decr key, .ok _ => if key = semaphoreKey userId then .outside else g
  | _, _ => g

/-- The refused and the admitted uploads among those that have raised the counter. -/
def Phase.value : Phase → ℕ × ℕ
  | .outside => (0, 0)
  | .refused => (1, 0)
  | .admitted | .inside => (0, 1)

def phases (userId : String) : Account Cmd Cmd.Reply Call Phase (ℕ × ℕ) where
  start _ := .outside
  next := Phase.next userId
  value := Phase.value

/-- The phase after an INCR that has answered `count`. -/
def Phase.ofCount (count : Int) : Phase :=
  if count > MAX_CONCURRENT_UPLOADS then .refused else .admitted

/-- The key whose counter a command addresses. -/
def Cmd.semaphore? : Cmd → Option String
  | .incr key | .decr key | .del key | .expire key _ => some key
  | _ => none

/-! A law between the counter and the requests -/

/-- The law `I` survives INCR, DECR and those DELs that find a value satisfying `may`. -/
structure CountRules (I : Int → ℕ × ℕ → Prop) (may : Int → Prop) : Prop where
  incr : ∀ n f, I n f → I (n + 1) ((Phase.ofCount (n + 1)).value + f)
  decr : ∀ n g f, g ≠ Phase.outside → I n (g.value + f) → I (n - 1) f
  del : ∀ n f, may n → I n f → I 0 f

def countDiscipline (env : Env) (userId : String) (I : Int → ℕ × ℕ → Prop) (may : Int → Prop) :
    Discipline (service env) Phase (ℕ × ℕ) where
  toAccount := phases userId
  inv w m := I (semaphoreCount w userId) m
  rely _ _ _ _ := True
  may w _ _ c := c = .del (semaphoreKey userId) → may (semaphoreCount w userId)
  rely_refl _ _ := trivial
  rely_trans _ _ := trivial

section Commands
variable {env : Env} {userId : String} {c : Cmd} {w : World}

theorem semaphore?_eq_none (h : c.family ≠ .semaphore) : c.semaphore? = none := by
  cases c <;> simp_all [Cmd.family, Cmd.semaphore?]

theorem semaphores_of_other {key : String} (h : c.semaphore? ≠ some key) :
    (env.exec c w).2.semaphores key = w.semaphores key := by
  by_cases hf : c.family = .semaphore
  · cases c <;> simp only [Cmd.family, reduceCtorEq] at hf <;>
      simp only [Cmd.semaphore?, ne_eq, Option.some.injEq] at h <;>
      exact Function.update_of_ne (Ne.symm h) _ _
  · rw [exec_semaphores hf]

theorem semaphoreCount_of_other (h : c.semaphore? ≠ some (semaphoreKey userId)) :
    semaphoreCount (env.exec c w).2 userId = semaphoreCount w userId := by
  simp only [semaphoreCount, semaphores_of_other h]

theorem phase_next_of_other {g : Phase} {r : c.Reply}
    (h : c.semaphore? ≠ some (semaphoreKey userId)) : Phase.next userId g c r = g := by
  cases c <;> simp only [Cmd.semaphore?, ne_eq, Option.some.injEq] at h <;>
    cases r <;> simp [Phase.next, h]

theorem exec_incr : ∃ u, env.exec (.incr (semaphoreKey userId)) w =
    (.ok (semaphoreCount w userId + 1), u) ∧
      semaphoreCount u userId = semaphoreCount w userId + 1 :=
  ⟨_, rfl, by simp [semaphoreCount]⟩

theorem exec_decr : ∃ u, env.exec (.decr (semaphoreKey userId)) w =
    (.ok (semaphoreCount w userId - 1), u) ∧
      semaphoreCount u userId = semaphoreCount w userId - 1 :=
  ⟨_, rfl, by simp [semaphoreCount]⟩

theorem exec_expire (seconds : ℕ) : ∃ u, env.exec (.expire (semaphoreKey userId) seconds) w =
    (.ok (), u) ∧ semaphoreCount u userId = semaphoreCount w userId := by
  refine ⟨_, rfl, ?_⟩
  cases h : w.semaphores (semaphoreKey userId) <;> simp [semaphoreCount, h]

theorem exec_del : ∃ u, env.exec (.del (semaphoreKey userId)) w = (.ok (), u) ∧
    semaphoreCount u userId = 0 :=
  ⟨_, rfl, by simp [semaphoreCount]⟩

end Commands

section Bodies
variable {env : Env} {userId : String} {w : World} {m : ℕ × ℕ} {I : Int → ℕ × ℕ → Prop}
  {may : Int → Prop} {E : Err → Phase → World → ℕ × ℕ → Prop}

theorem other_neutral {g : Phase} {c : Cmd} (h : c.semaphore? ≠ some (semaphoreKey userId)) :
    (countDiscipline env userId I may).Neutral g c := by
  intro w f hi _
  refine ⟨phase_next_of_other h, ?_, trivial⟩
  show I (semaphoreCount (env.exec c w).2 userId) _
  rw [semaphoreCount_of_other h]
  exact hi

theorem keeps_incr (hI : CountRules I may) :
    (countDiscipline env userId I may).Keeps (await (.incr (semaphoreKey userId))) .outside w m
      (fun (count : Int) g _ _ => g = Phase.ofCount count) E := by
  refine keeps_await fun w' f r u _ hi _ he => ?_
  obtain ⟨u', he', hu⟩ := @exec_incr env userId w'
  obtain ⟨rfl, rfl⟩ := Prod.mk.inj (he'.symm.trans he)
  have hn : (countDiscipline env userId I may).next .outside (.incr (semaphoreKey userId))
      (.ok (semaphoreCount w' userId + 1)) = Phase.ofCount (semaphoreCount w' userId + 1) :=
    if_pos rfl
  refine ⟨?_, trivial, fun _ _ _ _ => hn⟩
  rw [hn]
  have hi' : I (semaphoreCount w' userId) f := by
    have h0 : Phase.value .outside + f = f := zero_add f
    exact h0 ▸ hi
  show I (semaphoreCount u' userId) (Phase.value _ + f)
  rw [hu]
  exact hI.incr _ _ hi'

theorem keeps_expire {g : Phase} (seconds : ℕ) :
    (countDiscipline env userId I may).Keeps (await (.expire (semaphoreKey userId) seconds)) g w m
      (fun _ g' _ _ => g' = if g = .admitted then Phase.inside else g)
      E := by
  refine keeps_await fun w' f r u _ hi _ he => ?_
  obtain ⟨u', he', hu⟩ := @exec_expire env userId w' seconds
  obtain ⟨rfl, rfl⟩ := Prod.mk.inj (he'.symm.trans he)
  have hn : (countDiscipline env userId I may).next g (.expire (semaphoreKey userId) seconds)
      (.ok ()) = if g = .admitted then .inside else g := by
    show (if semaphoreKey userId = semaphoreKey userId ∧ g = .admitted then _ else _) = _
    simp
  refine ⟨?_, trivial, fun _ _ _ _ => hn⟩
  have hv : (if g = .admitted then Phase.inside else g).value = g.value := by
    cases g <;> rfl
  rw [hn]
  show I (semaphoreCount u' userId) (Phase.value _ + f)
  rw [hv, hu]
  exact hi

/-- DECR takes the thread out of the count again. -/
theorem keeps_decr (hI : CountRules I may) {g : Phase} (hg : g ≠ .outside) :
    (countDiscipline env userId I may).Keeps (await (.decr (semaphoreKey userId))) g w m
      (fun _ g' _ _ => g' = .outside) E := by
  refine keeps_await fun w' f r u _ hi _ he => ?_
  obtain ⟨u', he', hu⟩ := @exec_decr env userId w'
  obtain ⟨rfl, rfl⟩ := Prod.mk.inj (he'.symm.trans he)
  have hn : (countDiscipline env userId I may).next g (.decr (semaphoreKey userId))
      (.ok (semaphoreCount w' userId - 1)) = .outside := if_pos rfl
  refine ⟨?_, trivial, fun _ _ _ _ => hn⟩
  rw [hn]
  show I (semaphoreCount u' userId) (Phase.value .outside + f)
  rw [hu, show Phase.value .outside + f = f from zero_add f]
  exact hI.decr _ g f hg hi

theorem keeps_del (hI : CountRules I may) :
    (countDiscipline env userId I may).Keeps (await (.del (semaphoreKey userId))) .outside w m
      (fun _ g' _ _ => g' = .outside) E := by
  refine keeps_await fun w' f r u _ hi hm he => ?_
  obtain ⟨u', he', hu⟩ := @exec_del env userId w'
  obtain ⟨rfl, rfl⟩ := Prod.mk.inj (he'.symm.trans he)
  refine ⟨?_, trivial, fun _ _ _ _ => rfl⟩
  show I (semaphoreCount u' userId) _
  rw [hu]
  exact hI.del _ _ (hm rfl) hi

theorem acquireSemaphore_keeps (hI : CountRules I may) :
    (countDiscipline env userId I may).Keeps (acquireSemaphore userId) .outside w m
      (fun _ g _ _ => g = .inside) (fun _ g _ _ => g = .outside) := by
  unfold acquireSemaphore
  refine Discipline.Keeps.bind (keeps_incr hI) fun count g w₁ m₁ hi₁ hg => ?_
  have hg := hg.now hi₁
  refine Discipline.Keeps.bind (keeps_expire _) fun _ g' w₂ m₂ hi₂ hg' => ?_
  have hg' := hg'.now hi₂
  unfold Phase.ofCount at hg
  split
  · next h =>
    rw [if_pos h] at hg
    subst hg
    refine Discipline.Keeps.bind (keeps_decr hI ?_) fun _ g₃ _ _ hi₃ h₃ => ?_
    · rw [hg']
      decide
    · exact Discipline.keeps_throw fun _ _ _ _ => h₃.now hi₃
  · next h =>
    rw [if_neg h] at hg
    subst hg
    exact Discipline.keeps_pure fun _ _ _ _ => hg'

theorem releaseSemaphore_keeps (hI : CountRules I may) :
    (countDiscipline env userId I may).Keeps (releaseSemaphore userId) .inside w m
      (fun _ g _ _ => g = .outside) (fun _ g _ _ => g = .outside) := by
  unfold releaseSemaphore
  refine Discipline.Keeps.bind (keeps_decr hI (by decide)) fun remaining g w₁ m₁ hi₁ hg => ?_
  obtain rfl := hg.now hi₁
  split
  · exact keeps_del hI
  · exact Discipline.keeps_pure fun _ _ _ _ => rfl

theorem acquireSemaphore_issues (ownerId : String) :
    ProgE.Issues (fun c => c.semaphore? = some (semaphoreKey ownerId))
      (acquireSemaphore ownerId) := by
  refine ProgE.Issues.bind ⟨rfl, fun _ => trivial⟩ fun count =>
    ProgE.Issues.bind ⟨rfl, fun _ => trivial⟩ fun _ => ?_
  split
  · exact ProgE.Issues.bind ⟨rfl, fun _ => trivial⟩ fun _ => ProgE.issues_throw _
  · exact ProgE.issues_pure ()

theorem releaseSemaphore_issues (ownerId : String) :
    ProgE.Issues (fun c => c.semaphore? = some (semaphoreKey ownerId))
      (releaseSemaphore ownerId) := by
  refine ProgE.Issues.bind ⟨rfl, fun _ => trivial⟩ fun remaining => ?_
  split
  · exact ⟨rfl, fun _ => trivial⟩
  · exact ProgE.issues_pure ()

/-- What an upload does between acquire and release leaves the counters alone. -/
theorem uploadHeld_issues (ownerId : String) (file : File) (context : MediaContext)
    (thumbnailFile : Option File) (sharedWith : Option (List String)) :
    ProgE.Issues (fun c => c.semaphore? ≠ some (semaphoreKey userId))
      (uploadHeld env ownerId file context thumbnailFile sharedWith) := by
  refine ProgE.Issues.mono (uploadHeld_touches env ownerId file context thumbnailFile
    sharedWith).issues fun c hc => ?_
  rw [semaphore?_eq_none fun h => by simp [h] at hc]
  simp

theorem upload_keeps (hI : CountRules I may) (ownerId : String) (file : File)
    (context : MediaContext) (thumbnailFile : Option File) (sharedWith : Option (List String)) :
    (countDiscipline env userId I may).Keeps
      (upload env ownerId file context thumbnailFile sharedWith) .outside w m
      (fun _ _ _ _ => True) (fun _ _ _ _ => True) := by
  have hheld := @uploadHeld_issues env userId ownerId file context thumbnailFile sharedWith
  by_cases ho : ownerId = userId
  · subst ho
    refine Discipline.Keeps.bind ((acquireSemaphore_keeps hI).mono (fun _ _ _ _ _ h => h)
      fun _ _ _ _ _ _ => trivial) fun _ g w₁ m₁ hi₁ hg => ?_
    obtain rfl := hg.now hi₁
    have hkeep := Discipline.keeps_of_issues (w := w₁) (m := m₁) hheld fun c hc =>
      @other_neutral env ownerId I may .inside c hc
    refine Discipline.Keeps.ensuring hkeep (fun a g w₂ m₂ hi₂ h₂ => ?_)
      fun e g w₂ m₂ hi₂ h₂ => ?_
    · obtain ⟨rfl, -⟩ := h₂.now hi₂
      exact (releaseSemaphore_keeps hI).mono (fun _ _ _ _ _ _ => trivial)
        fun _ _ _ _ _ _ => trivial
    · obtain ⟨rfl, -⟩ := h₂.now hi₂
      exact (releaseSemaphore_keeps hI).mono (fun _ _ _ _ _ _ => trivial)
        fun _ _ _ _ _ _ => trivial
  · -- the counter of another user
    have hkey : ∀ c : Cmd, c.semaphore? = some (semaphoreKey ownerId) →
        c.semaphore? ≠ some (semaphoreKey userId) := by
      intro c hc h
      exact ho (semaphoreKey_injective (Option.some.inj (hc.symm.trans h)))
    refine Discipline.keeps_neutral (ProgE.Issues.bind
      ((acquireSemaphore_issues ownerId).mono hkey) fun _ =>
        ProgE.Issues.ensuring hheld ((releaseSemaphore_issues ownerId).mono hkey))
      (fun c hc => other_neutral hc) (fun _ _ _ _ _ => trivial) fun _ _ _ _ _ => trivial

/-- Every call keeps a law that the four commands keep. -/
theorem handle_keeps_semaphore (hI : CountRules I may) (x : Call) :
    (countDiscipline env userId I may).Keeps (handle env x) .outside w m
      (fun _ _ _ _ => True) (fun _ _ _ _ => True) := by
  by_cases hx : ∃ ownerId file context thumbnailFile sharedWith,
      x = .upload ownerId file context thumbnailFile sharedWith
  · obtain ⟨ownerId, file, context, thumbnailFile, sharedWith, rfl⟩ := hx
    exact (upload_keeps hI ownerId file context thumbnailFile sharedWith).map
      fun _ _ _ _ _ _ => trivial
  · refine Discipline.keeps_neutral (handle_touches env x fun o f c t s h =>
      hx ⟨o, f, c, t, s, h⟩).issues (fun c hc => other_neutral ?_)
      (fun _ _ _ _ _ => trivial) fun _ _ _ _ _ => trivial
    rw [semaphore?_eq_none fun h => by simp [h] at hc]
    simp

theorem handle_callable (hI : CountRules I may) (x : Call) :
    (countDiscipline env userId I may).Callable (fun _ _ _ _ _ => True) x :=
  ⟨rfl, fun _ _ _ => (handle_keeps_semaphore hI x).upholds.mono fun _ _ _ _ _ _ => trivial⟩

end Bodies

end WhisprMedia
