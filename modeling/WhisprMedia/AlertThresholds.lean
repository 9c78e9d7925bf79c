import WhisprMedia.QuotaDecisions

/-! The thresholds of the quota alerts beside the usage that a user is shown: two scalings of the
same quotient, with their guards for limits that are not positive. -/
namespace WhisprMedia
open Awaiting MediaService QuotaService

/-! Quotients -/

section Percent
variable {used used' limit p : ℤ}

/-- The quotient in whole percents passes a positive threshold exactly as the products do. -/
theorem le_percentUsed_iff (hused : 0 ≤ used) (hp : 0 < p) :
    p ≤ (used * 100).tdiv limit ↔ 0 < limit ∧ p * limit ≤ 100 * used := by
  have hnum : 0 ≤ used * 100 := by omega
  by_cases hpos : 0 < limit
  · rw [Int.tdiv_eq_ediv_of_nonneg hnum, Int.le_ediv_iff_mul_le hpos]
    constructor
    · intro h
      exact ⟨hpos, by omega⟩
    · intro h
      omega
  · -- under a negative limit the quotient is not positive
    have hneg : (used * 100).tdiv limit ≤ 0 := Int.tdiv_nonpos_of_nonneg_of_nonpos hnum (by omega)
    constructor
    · intro h
      omega
    · intro h
      exact absurd h.1 hpos

/-- The displayed usage under a positive limit, before it is clamped. -/
theorem usagePercent_of_pos (hused : 0 ≤ used) (hpos : 0 < limit) :
    usagePercent used limit = min 10000 (used * 10000 / limit) := by
  have hnum : 0 ≤ used * 10000 := by omega
  have hquot : 0 ≤ used * 10000 / limit := Int.ediv_nonneg hnum (Int.le_of_lt hpos)
  unfold usagePercent
  rw [if_pos hpos, Int.tdiv_eq_ediv_of_nonneg hnum, Int.max_eq_right hquot]

/-- The displayed usage passes a threshold of at most a hundred percent as the products do. -/
theorem le_usagePercent_iff (hused : 0 ≤ used) (hp : 0 < p) (hp' : p ≤ 100) :
    100 * p ≤ usagePercent used limit ↔ 0 < limit ∧ p * limit ≤ 100 * used := by
  by_cases hpos : 0 < limit
  · rw [usagePercent_of_pos hused hpos, Int.le_min, Int.le_ediv_iff_mul_le hpos, mul_assoc]
    constructor
    · intro h
      exact ⟨hpos, by omega⟩
    · intro h
      exact ⟨by omega, by omega⟩
  · have hzero : usagePercent used limit = 0 := if_neg hpos
    rw [hzero]
    constructor
    · intro h
      omega
    · intro h
      exact absurd h.1 hpos

theorem usagePercent_mem (used limit : ℤ) :
    0 ≤ usagePercent used limit ∧ usagePercent used limit ≤ 10000 := by
  unfold usagePercent
  split <;> omega

theorem usagePercent_mono (hused : 0 ≤ used) (h : used ≤ used') :
    usagePercent used limit ≤ usagePercent used' limit := by
  by_cases hpos : 0 < limit
  · rw [usagePercent_of_pos hused hpos, usagePercent_of_pos (by omega) hpos]
    have hquot : used * 10000 / limit ≤ used' * 10000 / limit :=
      Int.ediv_le_ediv hpos (by omega)
    omega
  · exact Int.le_of_eq ((if_neg hpos).trans (if_neg hpos).symm)

/-- A full bar means a full quota, under a positive limit. -/
theorem usagePercent_eq_iff (hused : 0 ≤ used) (hpos : 0 < limit) :
    usagePercent used limit = 10000 ↔ limit ≤ used := by
  have hfull := @le_usagePercent_iff used limit 100 hused (by omega) (by omega)
  have hmem := usagePercent_mem used limit
  constructor
  · intro h
    have := (hfull.mp (by omega)).2
    omega
  · intro h
    have := hfull.mpr ⟨hpos, by omega⟩
    omega

end Percent

/-! Attempts -/

/-- The key that a threshold is silenced by. -/
def alertCooldownKey (userId : String) (percent : Int) : String :=
  s!"quota:alert:cooldown:{userId}:{percent}"

theorem alertCooldownKey_injective {userId : String} {p p' : ℤ}
    (h : alertCooldownKey userId p = alertCooldownKey userId p') : p = p' := by
  unfold alertCooldownKey at h
  have htext : toString p = toString p' := (String.append_right_inj _).mp h
  have hread := bigInt_toString p
  rw [htext, bigInt_toString p'] at hread
  exact (Except.ok.inj hread).symm

/-- An alert at the threshold is attempted: its key is asked for. -/
def AttemptIn (userId : String) (p : Int) (log : ServiceLog) : Prop :=
  ∃ e ∈ log, e.1 = .setNxEx (alertCooldownKey userId p) QUOTA_ALERT_COOLDOWN_TTL_SECONDS

/-- The alert task, run alone on this world, attempts an alert at the threshold. -/
def AttemptsAlert (env : Env) (w : World) (userId : String) (p : Int) : Prop :=
  AttemptIn userId p (Prog.run env.exec (checkAndPublishQuotaAlert userId).run w).log

section Attempts
variable {env : Env} {w : World} {userId : String} {used limit percent p : ℤ} {log log' : ServiceLog}

theorem attemptIn_append : AttemptIn userId p (log ++ log') ↔
    AttemptIn userId p log ∨ AttemptIn userId p log' := by
  simp only [AttemptIn, List.mem_append, or_and_right, exists_or]

theorem not_attemptIn_nil : ¬ AttemptIn userId p [] := by
  rintro ⟨e, he, -⟩
  exact List.not_mem_nil he

/-- Commands on the quota are no attempt. -/
theorem not_attemptIn_of_family {F : List Family} (hF : .alerts ∉ F)
    (h : ∀ e ∈ log, e.1.family ∈ F) : ¬ AttemptIn userId p log := by
  rintro ⟨e, he, hc⟩
  have hf := h e he
  rw [hc] at hf
  exact hF hf

theorem publishQuotaAlert_logs : ProgE.Logs env.exec (publishQuotaAlert userId used limit percent) w
    (fun _ l _ => ∀ p, AttemptIn userId p l ↔ p = percent) fun _ _ _ => False := by
  -- a log that asks for the key of this threshold, and then perhaps publishes
  have hlog (r) (l : ServiceLog) (hl : ∀ e ∈ l, ∃ channel payload, e.1 = .publish channel payload)
      (p : ℤ) : AttemptIn userId p (⟨.setNxEx (alertCooldownKey userId percent)
        QUOTA_ALERT_COOLDOWN_TTL_SECONDS, r⟩ :: l) ↔ p = percent := by
    constructor
    · rintro ⟨e, he, hc⟩
      rcases List.mem_cons.mp he with rfl | he
      · exact (alertCooldownKey_injective (Cmd.setNxEx.inj hc).1).symm
      · obtain ⟨channel, payload, hpub⟩ := hl e he
        exact absurd (hc.symm.trans hpub) (by simp)
    · rintro rfl
      exact ⟨_, List.mem_cons_self, rfl⟩
  refine logs_await_bind (fun acquired u _ => ?_) fun m u hm => ?_
  · cases acquired with
    | false => exact ProgE.logs_pure (hlog _ [] (by simp))
    | true =>
      refine logs_await (fun _ _ _ => hlog _ _ ?_) fun m u hm => ?_
      · intro e he
        rw [List.mem_singleton.mp he]
        exact ⟨_, _, rfl⟩
      · exact absurd (Prod.mk.inj hm).1 (by simp)
  · simp only [Env.exec] at hm
    split at hm <;> exact absurd (Prod.mk.inj hm).1 (by simp)

theorem publishQuotaAlertAt_logs {quota : UserQuota} : ProgE.Logs env.exec
    (publishQuotaAlertAt quota userId percent p) w
    (fun _ l _ => ∀ p', AttemptIn userId p' l ↔ p' = p ∧ p ≤ percent) fun _ _ _ => False := by
  unfold publishQuotaAlertAt
  split
  · next h =>
    refine publishQuotaAlert_logs.mono (fun _ l _ hl p' => ?_) fun _ _ _ h => h
    rw [hl p', and_iff_left h]
  · next h =>
    refine ProgE.logs_pure fun p' => ⟨fun ha => absurd ha not_attemptIn_nil, fun ha => ?_⟩
    exact absurd ha.2 h

/-- The loop attempts exactly the thresholds that the usage has reached. -/
theorem publishQuotaAlerts_logs {quota : UserQuota} (thresholds : List ℤ) (w : World) :
    ProgE.Logs env.exec (publishQuotaAlerts quota userId percent thresholds) w
      (fun _ l _ => ∀ p, AttemptIn userId p l ↔ p ∈ thresholds ∧ p ≤ percent)
      fun _ _ _ => False := by
  induction thresholds generalizing w with
  | nil =>
    refine ProgE.logs_pure fun p => ⟨fun ha => absurd ha not_attemptIn_nil, fun ha => ?_⟩
    exact absurd ha.1 List.not_mem_nil
  | cons p thresholds ih =>
    refine ProgE.Logs.bind publishQuotaAlertAt_logs (fun _ l u hl => ?_) fun _ _ _ h => h
    refine (ih u).mono (fun _ l' _ hl' p' => ?_) fun _ _ _ h => h
    rw [attemptIn_append, hl p', hl' p', List.mem_cons]
    constructor
    · rintro (⟨rfl, h⟩ | ⟨h, h'⟩)
      · exact ⟨Or.inl rfl, h⟩
      · exact ⟨Or.inr h, h'⟩
    · rintro ⟨rfl | h, h'⟩
      · exact Or.inl ⟨rfl, h'⟩
      · exact Or.inr ⟨h, h'⟩

/-- The task attempts the thresholds that the products of the row it reads have reached. -/
theorem attemptsAlert_iff {u : String} {q : UserQuota} (hu : env.uuidIn userId = some u)
    (hq : w.quotas.get u = some q) (hused : 0 ≤ q.storageUsed)
    (hcache : ∀ cached, w.quotaCache (cacheKey userId) = some cached → cached = toCached q)
    (hp : p ∈ QUOTA_ALERT_THRESHOLDS) :
    AttemptsAlert env w userId p ↔
      0 < q.storageLimit ∧ p * q.storageLimit ≤ 100 * q.storageUsed := by
  have hp0 : 0 < p := by
    have hall : ∀ p ∈ QUOTA_ALERT_THRESHOLDS, (0 : ℤ) < p := by decide
    exact hall p hp
  have hread := @getOrCreateQuota_reads env (fun _ => none) userId u q w hu hq hcache rfl
  rw [failing_nothing] at hread
  have hlogs : ProgE.Logs env.exec (checkAndPublishQuotaAlert userId) w
      (fun _ l _ => AttemptIn userId p l ↔ 0 < q.storageLimit ∧
        p * q.storageLimit ≤ 100 * q.storageUsed) fun _ _ _ => False := by
    refine ProgE.Logs.bind (hread.logs (getOrCreateQuota_touches userId).issues)
      (fun q' l u' h => ?_) fun _ _ _ h => h.1
    obtain ⟨⟨rfl, -⟩, hfamily⟩ := h
    have hnone : ¬ AttemptIn userId p l := not_attemptIn_of_family (by decide) hfamily
    by_cases hzero : q'.storageLimit = 0
    · -- without a limit there is no share of it
      rw [if_pos hzero]
      refine ProgE.logs_pure ⟨fun h => ?_, fun h => ?_⟩
      · rw [List.append_nil] at h
        exact absurd h hnone
      · omega
    · rw [if_neg hzero]
      refine (publishQuotaAlerts_logs _ _).mono (fun _ l' _ hl => ?_) fun _ _ _ h => h
      rw [attemptIn_append, hl p, or_iff_right hnone, and_iff_right hp]
      exact le_percentUsed_iff hused hp0
  have hrun := hlogs.logs
  unfold AttemptsAlert
  split at hrun
  · exact hrun
  · exact hrun.elim

end Attempts

/-! The usage that is shown -/

/-- The usage in the answer of `getUserQuota`, in hundredths of a percent. -/
def shownUsage (env : Env) (w : World) (userId : String) : Except Err Int :=
  (Prog.run env.exec (getUserQuota userId).run w).result.map (·.usagePercent)

theorem shownUsage_eq {env : Env} {w : World} {userId u : String} {q : UserQuota}
    (hu : env.uuidIn userId = some u) (hq : w.quotas.get u = some q) :
    shownUsage env w userId = .ok (usagePercent q.storageUsed q.storageLimit) := by
  have hfind : env.exec (.findQuota userId) w = (.ok (some q), w) := by
    simp only [Env.exec, hu, hq]
  have hends : ProgE.Ends env.exec (getUserQuota userId) w
      (fun dto _ => dto = toUserQuotaDto (some q)) fun _ _ => False :=
    ends_await_bind hfind (ProgE.ends_pure rfl)
  have hrun := hends.ends
  unfold shownUsage
  split at hrun
  · next dto hr => rw [hr, hrun]; rfl
  · exact hrun.elim

/-- The alerts for a row and the usage that is shown of it agree. -/
structure ThresholdsAgree (env : Env) (w : World) (userId : String) (q : UserQuota)
    (shown : Int) : Prop where
  attempted : ∀ p ∈ QUOTA_ALERT_THRESHOLDS, AttemptsAlert env w userId p ↔
    0 < q.storageLimit ∧ p * q.storageLimit ≤ 100 * q.storageUsed
  displayed : ∀ p ∈ QUOTA_ALERT_THRESHOLDS, AttemptsAlert env w userId p ↔ 100 * p ≤ shown
  between : 0 ≤ shown ∧ shown ≤ 10000
  full : 0 < q.storageLimit → (shown = 10000 ↔ q.storageLimit ≤ q.storageUsed)

/-- An alert is attempted at a threshold exactly when the usage that is shown has reached it, and
the usage grows with the bytes that are used. -/
theorem alert_thresholds_agree (env : Env) (w : World) (userId u : String) (q : UserQuota)
    (hu : env.uuidIn userId = some u) (hq : w.quotas.get u = some q) (hused : 0 ≤ q.storageUsed)
    (hcache : ∀ cached, w.quotaCache (cacheKey userId) = some cached → cached = toCached q) :
    ∃ shown, shownUsage env w userId = .ok shown ∧ ThresholdsAgree env w userId q shown ∧
      ∀ w' q', w'.quotas.get u = some q' → q'.storageLimit = q.storageLimit →
        q.storageUsed ≤ q'.storageUsed →
        ∃ shown', shownUsage env w' userId = .ok shown' ∧ shown ≤ shown' := by
  have hrange : ∀ p ∈ QUOTA_ALERT_THRESHOLDS, (0 : ℤ) < p ∧ p ≤ 100 := by decide
  refine ⟨_, shownUsage_eq hu hq, ?_, ?_⟩
  · refine ⟨?_, ?_, usagePercent_mem _ _, usagePercent_eq_iff hused⟩
    · intro p hp
      exact attemptsAlert_iff hu hq hused hcache hp
    · intro p hp
      rw [attemptsAlert_iff hu hq hused hcache hp,
        le_usagePercent_iff hused (hrange p hp).1 (hrange p hp).2]
  · intro w' q' hq' hlimit hle
    refine ⟨_, shownUsage_eq hu hq', ?_⟩
    rw [hlimit]
    exact usagePercent_mono hused hle

theorem alert_thresholds_agree_full :
    ∃ shown, shownUsage exampleEnv { fullQuotaWorld with quotaCache := fun _ => none }
        (exampleId 0) = .ok shown ∧
      ThresholdsAgree exampleEnv { fullQuotaWorld with quotaCache := fun _ => none } (exampleId 0)
        fullQuota shown := by
  have hrow : fullQuotaWorld.quotas.get (exampleId 0) = some fullQuota := by decide +kernel
  obtain ⟨shown, hshown, hagree, -⟩ := alert_thresholds_agree exampleEnv
    { fullQuotaWorld with quotaCache := fun _ => none } (exampleId 0) (exampleId 0) fullQuota
    (exampleId_canonical 0) hrow (by decide) (by simp)
  exact ⟨shown, hshown, hagree⟩

end WhisprMedia
