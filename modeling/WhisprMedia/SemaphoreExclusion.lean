import WhisprMedia.SemaphoreCounter

/-! At most three uploads of a user at once, as long as no DEL removes a counter that another
upload has raised in the meantime. -/
namespace WhisprMedia
open Awaiting MediaService

/-- The uploads of the user between a successful acquire and their release. -/
def uploadsInside (userId : String) (p : ServicePool) : ℕ :=
  p.threads.countP fun t => (phases userId).of t = .inside

/-- The counter counts the uploads that have raised it, and at most three are admitted. -/
structure SemaphoreInv (userId : String) (w : World) (m : ℕ × ℕ) : Prop where
  count : semaphoreCount w userId = m.1 + m.2
  limit : (m.2 : Int) ≤ MAX_CONCURRENT_UPLOADS

def semaphoreDiscipline (env : Env) (userId : String) :
    Discipline (service env) Phase (ℕ × ℕ) where
  toAccount := phases userId
  inv := SemaphoreInv userId
  rely _ _ _ _ := True
  may w _ _ c := c = .del (semaphoreKey userId) → semaphoreCount w userId ≤ 0
  rely_refl _ _ := trivial
  rely_trans _ _ := trivial

/-- The law of `SemaphoreInv`, between the counter and the uploads. -/
theorem semaphore_count_rules :
    CountRules (fun n m => n = m.1 + m.2 ∧ (m.2 : Int) ≤ MAX_CONCURRENT_UPLOADS) (· ≤ 0) where
  incr n f h := by
    obtain ⟨hc, hl⟩ := h
    simp only [MAX_CONCURRENT_UPLOADS] at hl
    unfold Phase.ofCount
    split
    · simp only [Phase.value, Prod.fst_add, Prod.snd_add, MAX_CONCURRENT_UPLOADS]
      omega
    · next h =>
      simp only [MAX_CONCURRENT_UPLOADS] at h
      simp only [Phase.value, Prod.fst_add, Prod.snd_add, MAX_CONCURRENT_UPLOADS]
      omega
  decr n g f hg h := by
    cases g <;> simp only [ne_eq, not_true_eq_false] at hg <;>
      simp only [Phase.value, Prod.fst_add, Prod.snd_add, MAX_CONCURRENT_UPLOADS] at h ⊢ <;> omega
  del n f hn h := by
    -- no upload has raised the counter since the DECR, so the counter that is removed is 0
    obtain ⟨hc, hl⟩ := h
    simp only [MAX_CONCURRENT_UPLOADS] at hl ⊢
    omega

theorem semaphoreDiscipline_eq (env : Env) (userId : String) :
    semaphoreDiscipline env userId = countDiscipline env userId
      (fun n m => n = m.1 + m.2 ∧ (m.2 : Int) ≤ MAX_CONCURRENT_UPLOADS) (· ≤ 0) := by
  have hinv : SemaphoreInv userId = fun w m => semaphoreCount w userId = m.1 + m.2 ∧
      (m.2 : Int) ≤ MAX_CONCURRENT_UPLOADS := by
    funext w m
    exact propext ⟨fun h => ⟨h.count, h.limit⟩, fun h => ⟨h.1, h.2⟩⟩
  unfold semaphoreDiscipline
  simp only [hinv]
  rfl

/-! Runs -/

/-- The key of a user's counter does not expire. -/
def NeverExpires (userId : String) (l : Label Call Act) : Prop :=
  l ≠ .act (.expireSemaphore (semaphoreKey userId))

instance (userId : String) (l : Label Call Act) : Decidable (NeverExpires userId l) :=
  inferInstanceAs (Decidable (_ ≠ _))

/-- If the step issues the DEL of a user's release, the counter is at most 0. -/
def DelOfZero (userId : String) (p : ServicePool) : Label Call Act → Prop
  | .step i => p.nextCmd i = some (.del (semaphoreKey userId)) → semaphoreCount p.world userId ≤ 0
  | _ => True

instance (userId : String) (p : ServicePool) (l : Label Call Act) :
    Decidable (DelOfZero userId p l) :=
  match l with
  | .step _ => inferInstanceAs (Decidable (_ → _))
  | .call _ | .act _ => inferInstanceAs (Decidable True)

theorem act_semaphoreCount {userId : String} {a : Act} {w : World}
    (h : a ≠ .expireSemaphore (semaphoreKey userId)) :
    semaphoreCount (a.apply w) userId = semaphoreCount w userId := by
  cases a with
  | expireSemaphore key =>
    have hk : key ≠ semaphoreKey userId := fun hk => h (hk ▸ rfl)
    simp only [Act.apply]
    split
    · simp only [semaphoreCount, Function.update_of_ne (Ne.symm hk)]
    · rfl
  | refreshSemaphoreTtl key =>
    by_cases hk : semaphoreKey userId = key
    · subst hk
      cases hc : w.semaphores (semaphoreKey userId) <;> simp [semaphoreCount, Act.apply, hc]
    · simp only [semaphoreCount, Act.apply, Function.update_of_ne hk]
  | expireCooldown key =>
    simp only [Act.apply]
    split <;> rfl
  | _ => rfl

theorem semaphore_sound (env : Env) (userId : String) :
    (semaphoreDiscipline env userId).Sound (fun _ _ _ _ _ => True)
      (fun p l => NeverExpires userId l ∧ DelOfZero userId p l) where
  call _ x _ := semaphoreDiscipline_eq env userId ▸ handle_callable semaphore_count_rules x
  fork _ x _ := semaphoreDiscipline_eq env userId ▸ handle_callable semaphore_count_rules x
  act p a m hok hi :=
    ⟨⟨(act_semaphoreCount fun h => hok.1 (h ▸ rfl)).trans hi.count, hi.limit⟩, trivial⟩
  step p i x log c k hok ht hc := hok.2 (by simp only [Pool.nextCmd, ht, hc])

theorem uploadsInside_le_total (userId : String) (p : ServicePool) :
    uploadsInside userId p ≤ ((phases userId).total p).2 := by
  unfold uploadsInside Account.total
  induction p.threads with
  | nil => rfl
  | cons t ts ih =>
    rw [List.countP_cons, List.map_cons, List.sum_cons, Prod.snd_add]
    by_cases hg : (phases userId).of t = .inside
    · have hv : ((phases userId).value ((phases userId).of t)).2 = 1 := by rw [hg]; rfl
      simp only [hg, decide_true, ↓reduceIte] at hv ih ⊢
      omega
    · simp only [hg, decide_false, Bool.false_eq_true, ↓reduceIte]
      omega

/-- If every DEL of a user's counter finds it at most 0, no four uploads of the user are inside. -/
theorem uploadsInside_le_three (env : Env) (userId : String) (w : World)
    (hw : w.semaphores (semaphoreKey userId) = none) (p : ServicePool)
    (h : (service env).Runs (fun p l => NeverExpires userId l ∧ DelOfZero userId p l) ⟨w, []⟩ p) :
    (uploadsInside userId p : ℤ) ≤ MAX_CONCURRENT_UPLOADS := by
  have hstart : (semaphoreDiscipline env userId).inv w 0 :=
    ⟨by simp [semaphoreCount, hw], by simp [MAX_CONCURRENT_UPLOADS]⟩
  have hp := ((Discipline.holds_of_empty hstart).runs (semaphore_sound env userId) h).1
  exact Int.le_trans (Int.ofNat_le.mpr (uploadsInside_le_total userId p)) hp.inv.limit

/-- An upload of a group icon, which ends with 503 where no group-service is configured. -/
def iconUpload : Call :=
  .upload (exampleId 7) ⟨"image/png", 1, some [0], none⟩ .GROUP_ICON none none

/-- Two uploads one after the other, and then three that have acquired. -/
theorem uploadsInside_le_three_of_five : ∃ p, (service exampleEnv).play
    (fun p l => NeverExpires (exampleId 7) l ∧ DelOfZero (exampleId 7) p l) ⟨World.empty, []⟩
    [.call iconUpload, .call iconUpload, .call iconUpload, .call iconUpload, .call iconUpload,
      .step 0, .step 0, .step 0, .step 0, .step 1, .step 1, .step 1, .step 1,
      .step 2, .step 2, .step 3, .step 3, .step 4, .step 4] = some p ∧
    (uploadsInside (exampleId 7) p : ℤ) ≤ MAX_CONCURRENT_UPLOADS := by
  obtain ⟨p, hp⟩ := Option.isSome_iff_exists.mp (by decide +kernel :
    ((service exampleEnv).play
      (fun p l => NeverExpires (exampleId 7) l ∧ DelOfZero (exampleId 7) p l) ⟨World.empty, []⟩
      [.call iconUpload, .call iconUpload, .call iconUpload, .call iconUpload, .call iconUpload,
        .step 0, .step 0, .step 0, .step 0, .step 1, .step 1, .step 1, .step 1,
        .step 2, .step 2, .step 3, .step 3, .step 4, .step 4]).isSome = true)
  exact ⟨p, hp, uploadsInside_le_three exampleEnv (exampleId 7) World.empty rfl p
    (System.runs_of_play hp)⟩

/-- The first upload runs to its DECR, the second acquires, and only then comes the DEL of the
first; three more find the counter removed. -/
def lateDel : List (Label Call Act) :=
  [.call iconUpload, .call iconUpload, .call iconUpload, .call iconUpload, .call iconUpload,
    .step 0, .step 0, .step 0, .step 1, .step 1, .step 0,
    .step 2, .step 2, .step 3, .step 3, .step 4, .step 4]

/-- The semaphore does not keep a fourth upload out. -/
theorem uploadsInside_not_bounded :
    ¬ ∀ (env : Env) (userId : String) (w : World) (p : ServicePool),
      w.semaphores (semaphoreKey userId) = none →
      (service env).Runs (fun _ l => NeverExpires userId l) ⟨w, []⟩ p →
      (uploadsInside userId p : ℤ) ≤ MAX_CONCURRENT_UPLOADS := by
  intro hall
  have hplay : ((service exampleEnv).play (fun _ l => NeverExpires (exampleId 7) l)
      ⟨World.empty, []⟩ lateDel).map (uploadsInside (exampleId 7)) = some 4 := by
    decide +kernel
  obtain ⟨q, hq, hn⟩ := Option.map_eq_some_iff.mp hplay
  have h := hall exampleEnv (exampleId 7) World.empty q rfl (System.runs_of_play hq)
  rw [hn] at h
  exact absurd h (by decide)

end WhisprMedia
