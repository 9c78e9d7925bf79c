import WhisprMedia.AlertThresholds

/-! Timed runs of uploads and deletes, each with its alert task run to completion: a threshold that
is reached and not announced was announced within the last hour, as long as no PUBLISH fails. -/
namespace WhisprMedia
open Awaiting QuotaService

/-- `recordUpload`, and then the task that it leaves behind, whose errors are only logged. -/
def recordUploadAlerted (userId : String) (blobSize : JsNumber) : Svc Unit := do
  recordUpload userId blobSize
  tryCatch (checkAndPublishQuotaAlert userId) fun _ => pure ()

/-- An alert at the threshold was published. -/
def PublishedIn (userId : String) (p : Int) (log : ServiceLog) : Prop :=
  ∃ payload, (⟨.publish "quota.alert" payload, .ok ()⟩ : Event Cmd Cmd.Reply) ∈ log ∧
    payload.userId = userId ∧ payload.percent = p

/-- No PUBLISH of the log failed. -/
def PublishesServed (log : ServiceLog) : Prop :=
  ∀ channel payload r, (⟨.publish channel payload, r⟩ : Event Cmd Cmd.Reply) ∈ log → r = .ok ()

def OnlyPublishFails (fault : Cmd → Option Fault) : Prop :=
  ∀ c, (fault c).isSome → ∃ channel payload, c = .publish channel payload

/-- What alerts leave behind: a key that was taken now belongs to an alert that was published. -/
structure AlertEffect (userId : String) (w : World) (log : ServiceLog) (w' : World) : Prop where
  now : w'.now = w.now
  cooldowns : ∀ key, w'.cooldowns key = w.cooldowns key ∨ ∃ p ∈ QUOTA_ALERT_THRESHOLDS,
    key = alertCooldownKey userId p ∧ w.cooldowns key = none ∧
      w'.cooldowns key = some (w.now + QUOTA_ALERT_COOLDOWN_TTL_SECONDS * 1000) ∧
      PublishedIn userId p log

/-- The key of the threshold is taken. -/
def Silenced (userId : String) (p : Int) (w : World) : Prop :=
  (w.cooldowns (alertCooldownKey userId p)).isSome

section Effects
variable {env : Env} {fault : Cmd → Option Fault} {userId : String} {w w' w'' : World}
  {log log' : ServiceLog} {c : Cmd} {used limit percent p : ℤ}

theorem PublishedIn.append_left (h : PublishedIn userId p log) (log' : ServiceLog) :
    PublishedIn userId p (log ++ log') := by
  obtain ⟨payload, hmem, hu, hp⟩ := h
  exact ⟨payload, List.mem_append_left _ hmem, hu, hp⟩

theorem PublishedIn.append_right (h : PublishedIn userId p log') (log : ServiceLog) :
    PublishedIn userId p (log ++ log') := by
  obtain ⟨payload, hmem, hu, hp⟩ := h
  exact ⟨payload, List.mem_append_right _ hmem, hu, hp⟩

theorem publishesServed_append :
    PublishesServed (log ++ log') ↔ PublishesServed log ∧ PublishesServed log' := by
  constructor
  · intro h
    exact ⟨fun channel payload r he => h channel payload r (List.mem_append_left _ he),
      fun channel payload r he => h channel payload r (List.mem_append_right _ he)⟩
  · rintro ⟨h, h'⟩ channel payload r he
    rcases List.mem_append.mp he with he | he
    · exact h channel payload r he
    · exact h' channel payload r he

namespace AlertEffect

theorem refl (w : World) : AlertEffect userId w log w := ⟨rfl, fun _ => Or.inl rfl⟩

theorem of_eq (hnow : w'.now = w.now) (hc : w'.cooldowns = w.cooldowns) :
    AlertEffect userId w log w' := ⟨hnow, fun key => Or.inl (congrFun hc key)⟩

theorem trans (h : AlertEffect userId w log w') (h' : AlertEffect userId w' log' w'') :
    AlertEffect userId w (log ++ log') w'' := by
  refine ⟨h'.now.trans h.now, fun key => ?_⟩
  rcases h'.cooldowns key with hk | ⟨p, hp, rfl, hnone, hsome, hpub⟩
  · rcases h.cooldowns key with hk' | ⟨p, hp, rfl, hnone, hsome, hpub⟩
    · exact Or.inl (hk.trans hk')
    · exact Or.inr ⟨p, hp, rfl, hnone, hk.trans hsome, hpub.append_left log'⟩
  · rcases h.cooldowns (alertCooldownKey userId p) with hk' | ⟨q, -, -, -, hsome', -⟩
    · refine Or.inr ⟨p, hp, rfl, hk'.symm.trans hnone, ?_, hpub.append_right log⟩
      rw [hsome, h.now]
    · -- a key that was just taken is not taken again
      rw [hnone] at hsome'
      exact absurd hsome' (by simp)

theorem silenced (h : AlertEffect userId w log w') (hs : Silenced userId p w) :
    Silenced userId p w' := by
  unfold Silenced at hs ⊢
  rcases h.cooldowns (alertCooldownKey userId p) with hk | ⟨q, -, -, -, hsome, -⟩
  · rwa [hk]
  · rw [hsome]
    rfl

end AlertEffect

theorem failing_of_family (hfault : OnlyPublishFails fault) (hc : c.family ≠ .alerts) :
    env.failing fault c w = env.exec c w := by
  apply failing_none
  cases hf : fault c with
  | none => rfl
  | some f =>
    obtain ⟨channel, payload, rfl⟩ := hfault c (by rw [hf]; rfl)
    exact absurd rfl hc

theorem exec_cooldowns (hc : c.family ≠ .alerts) : (env.exec c w).2.cooldowns = w.cooldowns := by
  cases c <;> simp only [Cmd.family, ne_eq, reduceCtorEq, not_true_eq_false, not_false_eq_true] at hc <;>
    simp only [Env.exec] <;> (repeat' split) <;> rfl

/-- A part that sends no command of alerts. -/
theorem ends_alertEffect {α : Type} {F : List Family} {x : Svc α} (hfault : OnlyPublishFails fault)
    (hx : Touches F x) (hF : .alerts ∉ F) : ProgE.Ends (env.failing fault) x w
      (fun _ w' => w'.now = w.now ∧ w'.cooldowns = w.cooldowns)
      fun _ w' => w'.now = w.now ∧ w'.cooldowns = w.cooldowns := by
  refine ends_of_touches (S := fun u v => v.now = u.now ∧ v.cooldowns = u.cooldowns) hx
    (fun _ => ⟨rfl, rfl⟩) (fun _ _ _ h h' => ⟨h'.1.trans h.1, h'.2.trans h.2⟩) fun c u hc => ?_
  have hne : c.family ≠ .alerts := fun h => hF (h ▸ hc)
  rw [failing_of_family hfault hne]
  exact ⟨exec_now, exec_cooldowns hne⟩

/-! Parts of the task -/

/-- An alert that finds its key free takes it and publishes. -/
theorem publishQuotaAlert_effect (hfault : OnlyPublishFails fault)
    (hp : p ∈ QUOTA_ALERT_THRESHOLDS) :
    ProgE.Logs (env.failing fault) (publishQuotaAlert userId used limit p) w
      (fun _ l w' => AlertEffect userId w l w' ∧ w'.quotas = w.quotas ∧ Silenced userId p w')
      fun _ l _ => ¬ PublishesServed l := by
  have hset : env.failing fault (.setNxEx (alertCooldownKey userId p)
      QUOTA_ALERT_COOLDOWN_TTL_SECONDS) w = env.exec (.setNxEx (alertCooldownKey userId p)
        QUOTA_ALERT_COOLDOWN_TTL_SECONDS) w := by
    apply failing_none
    cases hf : fault (.setNxEx (alertCooldownKey userId p) QUOTA_ALERT_COOLDOWN_TTL_SECONDS) with
    | none => rfl
    | some f =>
      obtain ⟨_, _, hc⟩ := hfault _ (by rw [hf]; rfl)
      exact absurd hc (by simp)
  refine logs_await_bind (fun acquired u hu => ?_) fun m u hu => ?_
  · rw [show (s!"quota:alert:cooldown:{userId}:{p}" : String) = alertCooldownKey userId p from rfl,
      hset] at hu
    simp only [Env.exec] at hu
    -- a key that is held keeps the alert silent
    by_cases hheld : (w.cooldowns (alertCooldownKey userId p)).isSome
    · rw [if_pos hheld] at hu
      obtain ⟨hacq, rfl⟩ := Prod.mk.inj hu
      obtain rfl := Except.ok.inj hacq
      exact ProgE.logs_pure ⟨AlertEffect.refl w, rfl, hheld⟩
    · rw [if_neg hheld] at hu
      obtain ⟨hacq, rfl⟩ := Prod.mk.inj hu
      obtain rfl := Except.ok.inj hacq
      have hfree : w.cooldowns (alertCooldownKey userId p) = none := by simpa using hheld
      refine logs_await (fun _ v hv => ?_) fun m v _ => ?_
      · obtain ⟨-, hexec⟩ := failing_ok hv
        obtain rfl := (Prod.mk.inj hexec).2
        refine ⟨⟨rfl, fun key => ?_⟩, rfl, ?_⟩
        · by_cases hkey : key = alertCooldownKey userId p
          · subst hkey
            refine Or.inr ⟨p, hp, rfl, hfree, Function.update_self _ _ _, ?_⟩
            exact ⟨_, List.mem_cons_of_mem _ (List.mem_singleton_self _), rfl, rfl⟩
          · exact Or.inl (Function.update_of_ne hkey _ _)
        · show (Function.update w.cooldowns (alertCooldownKey userId p) _ _).isSome = true
          rw [Function.update_self]
          rfl
      · -- PUBLISH has failed, and the log shows it
        intro hserved
        have herr := hserved "quota.alert" _ (.error m)
          (List.mem_cons_of_mem _ (List.mem_singleton_self _))
        exact absurd herr (by simp)
  · rw [show (s!"quota:alert:cooldown:{userId}:{p}" : String) = alertCooldownKey userId p from rfl,
      hset] at hu
    simp only [Env.exec] at hu
    split at hu <;> exact absurd (Prod.mk.inj hu).1 (by simp)

/-- The loop goes on while PUBLISH succeeds, and silences what the usage has reached. -/
theorem publishQuotaAlerts_effect {quota : UserQuota} (hfault : OnlyPublishFails fault)
    (thresholds : List ℤ) (hall : ∀ p ∈ thresholds, p ∈ QUOTA_ALERT_THRESHOLDS) (w : World) :
    ProgE.Logs (env.failing fault) (publishQuotaAlerts quota userId percent thresholds) w
      (fun _ l w' => AlertEffect userId w l w' ∧ w'.quotas = w.quotas ∧
        ∀ p ∈ thresholds, p ≤ percent → Silenced userId p w')
      fun _ l _ => ¬ PublishesServed l := by
  induction thresholds generalizing w with
  | nil => exact ProgE.logs_pure ⟨AlertEffect.refl w, rfl, fun p hp => absurd hp List.not_mem_nil⟩
  | cons p thresholds ih =>
    have hfirst : ProgE.Logs (env.failing fault) (publishQuotaAlertAt quota userId percent p) w
        (fun _ l w' => AlertEffect userId w l w' ∧ w'.quotas = w.quotas ∧
          (p ≤ percent → Silenced userId p w')) fun _ l _ => ¬ PublishesServed l := by
      unfold publishQuotaAlertAt
      split
      · refine (publishQuotaAlert_effect hfault (hall p List.mem_cons_self)).mono
          (fun _ l w' h => ?_) fun _ _ _ h => h
        exact ⟨h.1, h.2.1, fun _ => h.2.2⟩
      · next hlt => exact ProgE.logs_pure ⟨AlertEffect.refl w, rfl, fun h => absurd h hlt⟩
    refine ProgE.Logs.bind hfirst (fun _ l w₁ h => ?_) fun _ _ _ h => h
    obtain ⟨heffect, hquotas, hsilenced⟩ := h
    refine (ih (fun p hp => hall p (List.mem_cons_of_mem _ hp)) w₁).mono (fun _ l' w₂ h => ?_)
      fun _ l' _ h hserved => h (publishesServed_append.mp hserved).2
    obtain ⟨heffect', hquotas', hsilenced'⟩ := h
    refine ⟨heffect.trans heffect', hquotas'.trans hquotas, fun p' hp' hle => ?_⟩
    rcases List.mem_cons.mp hp' with rfl | hp'
    · exact heffect'.silenced (hsilenced hle)
    · exact hsilenced' p' hp' hle

/-- The task on the row of the table silences the thresholds that it has reached. -/
theorem checkAndPublishQuotaAlert_effect {u : String} {q : UserQuota}
    (hfault : OnlyPublishFails fault) (hu : env.uuidIn userId = some u)
    (hq : w.quotas.get u = some q) (hcache : w.quotaCache (cacheKey userId) = none) :
    ProgE.Logs (env.failing fault) (checkAndPublishQuotaAlert userId) w
      (fun _ l w' => AlertEffect userId w l w' ∧ w'.quotas = w.quotas ∧
        ∀ p ∈ QUOTA_ALERT_THRESHOLDS, 0 < q.storageLimit →
          p * q.storageLimit ≤ 100 * q.storageUsed → Silenced userId p w')
      fun _ l _ => ¬ PublishesServed l := by
  have hfind : fault (.findQuota userId) = none := by
    cases hf : fault (.findQuota userId) with
    | none => rfl
    | some f =>
      obtain ⟨_, _, hc⟩ := hfault _ (by rw [hf]; rfl)
      exact absurd hc (by simp)
  have hread := (getOrCreateQuota_reads hu hq
    (fun cached h => absurd (hcache.symm.trans h) (by simp)) hfind).and
      (ends_alertEffect hfault (getOrCreateQuota_touches userId) (by decide))
  refine ProgE.Logs.bind (hread.logs (getOrCreateQuota_touches userId).issues)
    (fun q' l w₁ h => ?_) fun _ _ _ h => h.1.1.elim
  obtain ⟨⟨⟨rfl, hquotas⟩, hnow, hcooldowns⟩, hfamily⟩ := h
  have heffect : AlertEffect userId w l w₁ := AlertEffect.of_eq hnow hcooldowns
  by_cases hzero : q'.storageLimit = 0
  · rw [if_pos hzero]
    refine ProgE.logs_pure ⟨?_, hquotas, fun p _ hpos => ?_⟩
    · rwa [List.append_nil]
    · omega
  · rw [if_neg hzero]
    refine (publishQuotaAlerts_effect hfault _ (fun _ h => h) w₁).mono (fun _ l' w₂ h => ?_)
      fun _ l' _ h hserved => h (publishesServed_append.mp hserved).2
    obtain ⟨heffect', hquotas', hsilenced⟩ := h
    refine ⟨heffect.trans heffect', hquotas'.trans hquotas, fun p hp hpos hle => ?_⟩
    apply hsilenced p hp
    -- the products bound the usage from below
    have hp0 : 0 < p := by
      have hall : ∀ p ∈ QUOTA_ALERT_THRESHOLDS, (0 : ℤ) < p := by decide
      exact hall p hp
    have hprod : 0 < p * q'.storageLimit := Int.mul_pos hp0 hpos
    exact (le_percentUsed_iff (by omega) hp0).mpr ⟨hpos, hle⟩

/-- An upload that is recorded leaves its user a row and no copy of it. -/
theorem recordUpload_leaves {blobSize : JsNumber} (hfault : OnlyPublishFails fault) :
    ProgE.Ends (env.failing fault) (recordUpload userId blobSize) w
      (fun _ w' => ∃ u q, env.uuidIn userId = some u ∧ w'.quotas.get u = some q ∧
        w'.quotaCache (cacheKey userId) = none) fun _ _ => True := by
  apply ends_sync_bind (fun _ _ => trivial)
  intro _ _
  have hcharge : env.failing fault (.chargeQuota userId blobSize.toBigInt) w =
      env.exec (.chargeQuota userId blobSize.toBigInt) w := failing_of_family hfault (by simp [Cmd.family])
  cases hu : env.uuidIn userId with
  | none =>
    refine ProgE.Ends.bind (Q := fun _ _ => False) (ends_await fun r v hv => ?_) fun _ _ h => h.elim
    rw [hcharge] at hv
    simp only [Env.exec, hu] at hv
    obtain ⟨rfl, -⟩ := Prod.mk.inj hv
    trivial
  | some u =>
    rw [exec_chargeQuota hu] at hcharge
    refine ends_await_bind hcharge (ends_sync_bind (fun _ _ => trivial) fun _ hok => ?_)
    have hsome : (w.quotas.get u).isSome := by
      by_contra hs
      exact enforceAffected_ok hok (if_neg hs)
    obtain ⟨q, hq⟩ := Option.isSome_iff_exists.mp hsome
    refine ends_quietly_bind (v := ()) (failing_of_family hfault (by simp [Cmd.family])) ?_
    refine ends_await_ok (v := ()) (failing_of_family hfault (by simp [Cmd.family])) ?_
    refine ⟨u, q.charge blobSize.toBigInt, rfl, ?_, Function.update_self _ _ _⟩
    exact get_chargeRow u |>.trans (by rw [if_pos rfl, hq, Option.map_some])

/-- A recorded upload and its task: either a PUBLISH failed, or what its user has reached is
silenced by alerts. -/
theorem recordUploadAlerted_effect {blobSize : JsNumber} (hfault : OnlyPublishFails fault) :
    ProgE.Logs (env.failing fault) (recordUploadAlerted userId blobSize) w
      (fun _ l w' => PublishesServed l → AlertEffect userId w l w' ∧
        ∀ u q p, env.uuidIn userId = some u → w'.quotas.get u = some q →
          p ∈ QUOTA_ALERT_THRESHOLDS → 0 < q.storageLimit →
          p * q.storageLimit ≤ 100 * q.storageUsed → Silenced userId p w')
      fun _ l w' => AlertEffect userId w l w' := by
  have hleaves : ProgE.Ends (env.failing fault) (recordUpload userId blobSize) w _ _ :=
    recordUpload_leaves hfault
  have hrecord := hleaves.and
    (ends_alertEffect hfault (recordUpload_touches userId blobSize) (by decide))
  refine ProgE.Logs.bind (hrecord.logs (recordUpload_touches userId blobSize).issues)
    (fun _ l w₁ h => ?_) fun _ _ _ h => AlertEffect.of_eq h.1.2.1 h.1.2.2
  obtain ⟨⟨⟨u, q, hu, hq, hcache⟩, hnow, hcooldowns⟩, -⟩ := h
  have heffect : AlertEffect userId w l w₁ := AlertEffect.of_eq hnow hcooldowns
  refine ProgE.Logs.tryCatch (E := fun _ l' _ => ¬ PublishesServed l')
    ((checkAndPublishQuotaAlert_effect hfault hu hq hcache).mono (fun _ l' w₂ h hserved => ?_)
      fun _ _ _ h => h) fun _ l' w₂ h => ProgE.logs_pure fun hserved => ?_
  · obtain ⟨heffect', hquotas, hsilenced⟩ := h
    refine ⟨heffect.trans heffect', fun u' q' p hu' hq' hp hpos hle => ?_⟩
    -- the row afterwards is the one that the task has read
    obtain rfl := Option.some.inj (hu.symm.trans hu')
    rw [hquotas, hq] at hq'
    obtain rfl := Option.some.inj hq'
    exact hsilenced p hp hpos hle
  · exact absurd (publishesServed_append.mp (publishesServed_append.mp hserved).2).1 h

end Effects

/-! Runs -/

/-- The clock moves on, and Redis no longer shows the keys whose time has come. -/
def passTime (ms : Nat) (w : World) : World :=
  { w with
    now := w.now + ms
    cooldowns := fun key => (w.cooldowns key).filter fun deadline => w.now + ms < deadline }

/-- A call that was served, with its alert task. -/
abbrev AlertServed := Served Cmd Cmd.Reply World Call (Except Err Unit)

/-- Uploads and deletes are recorded one after the other, at arbitrary times and for any users;
in each upload any PUBLISH may fail. -/
inductive AlertRuns (env : Env) (w₀ : World) : List AlertServed → World → Prop
  | start : AlertRuns env w₀ [] w₀
  | upload {tr w userId blobSize fault} : AlertRuns env w₀ tr w → OnlyPublishFails fault →
    AlertRuns env w₀ (tr ++ [⟨.recordUpload userId blobSize, w,
        Prog.run (env.failing fault) (recordUploadAlerted userId blobSize).run w⟩])
      (Prog.run (env.failing fault) (recordUploadAlerted userId blobSize).run w).world
  | delete {tr w userId blobSize} : AlertRuns env w₀ tr w →
    AlertRuns env w₀ (tr ++ [⟨.recordDelete userId blobSize, w,
        Prog.run env.exec (recordDelete userId blobSize).run w⟩])
      (Prog.run env.exec (recordDelete userId blobSize).run w).world
  | wait {tr w ms} : AlertRuns env w₀ tr w → AlertRuns env w₀ tr (passTime ms w)

/-- The upload leaves the threshold reached. -/
def Crosses (env : Env) (s : AlertServed) (userId : String) (p : Int) : Prop :=
  (∃ blobSize, s.call = .recordUpload userId blobSize) ∧ s.done.result = .ok () ∧
    ∃ u q, env.uuidIn userId = some u ∧ s.done.world.quotas.get u = some q ∧
      0 < q.storageLimit ∧ p * q.storageLimit ≤ 100 * q.storageUsed

/-- An alert for it was published in the hour up to the upload. -/
def Announced (tr : List AlertServed) (s : AlertServed) (userId : String) (p : Int) : Prop :=
  ∃ s' ∈ tr, s.before.now - 3600 * 1000 < s'.before.now ∧ s'.before.now ≤ s.before.now ∧
    PublishedIn userId p s'.done.log

/-- Every key that is taken belongs to an alert of the last hour. -/
def CooldownsBacked (tr : List AlertServed) (w : World) : Prop :=
  ∀ userId, ∀ p ∈ QUOTA_ALERT_THRESHOLDS, ∀ deadline,
    w.cooldowns (alertCooldownKey userId p) = some deadline →
    w.now < deadline ∧ ∃ s ∈ tr, s.before.now = deadline - 3600 * 1000 ∧ s.before.now ≤ w.now ∧
      PublishedIn userId p s.done.log

section Runs
variable {env : Env} {w₀ w w' : World} {tr : List AlertServed} {s : AlertServed} {userId : String}
  {p : ℤ}

/-- A key of an alert names its user and its threshold. -/
theorem alertCooldownKey_inj {userId' : String} {p' : ℤ} (hp : p ∈ QUOTA_ALERT_THRESHOLDS)
    (hp' : p' ∈ QUOTA_ALERT_THRESHOLDS)
    (h : alertCooldownKey userId p = alertCooldownKey userId' p') : userId = userId' ∧ p = p' := by
  have htext : ∀ p ∈ QUOTA_ALERT_THRESHOLDS, (":" ++ toString p).toList.length = 3 := by
    decide +kernel
  have hsplit (userId : String) (p : ℤ) : alertCooldownKey userId p =
      "quota:alert:cooldown:" ++ userId ++ (":" ++ toString p) := by
    unfold alertCooldownKey
    rw [← String.append_assoc]
    rfl
  rw [hsplit, hsplit] at h
  have hlists := congrArg String.toList h
  have happend (a b : String) : (a ++ b).toList = a.toList ++ b.toList := String.toList_append
  rw [happend _ (":" ++ toString p), happend _ (":" ++ toString p')] at hlists
  obtain ⟨huser, -⟩ := List.append_inj' hlists ((htext p hp).trans (htext p' hp').symm)
  have huser' : userId = userId' := (String.append_right_inj _).mp (String.toList_inj.mp huser)
  subst huser'
  rw [← hsplit, ← hsplit] at h
  exact ⟨rfl, alertCooldownKey_injective h⟩

/-- An effect of alerts keeps the keys backed, by this call or an earlier one. -/
theorem CooldownsBacked.step (h : CooldownsBacked tr w) (hbefore : s.before = w)
    (heffect : AlertEffect userId w s.done.log w') : CooldownsBacked (tr ++ [s]) w' := by
  intro userId' p hp deadline hd
  rcases heffect.cooldowns (alertCooldownKey userId' p) with hk | ⟨q, hq, hkey, -, hsome, hpub⟩
  · obtain ⟨hlt, s', hs', htime, hle, hpub⟩ := h userId' p hp deadline (hk.symm.trans hd)
    rw [heffect.now]
    exact ⟨hlt, s', List.mem_append_left _ hs', htime, hle, hpub⟩
  · -- the key was taken now
    obtain ⟨rfl, rfl⟩ := alertCooldownKey_inj hp hq hkey
    obtain rfl := Option.some.inj (hsome.symm.trans hd)
    rw [heffect.now]
    have httl : (QUOTA_ALERT_COOLDOWN_TTL_SECONDS : ℤ) = 3600 := rfl
    refine ⟨by omega, s, List.mem_append_right _ (List.mem_singleton_self s), ?_, ?_, hpub⟩
    · rw [hbefore]
      omega
    · rw [hbefore]

theorem CooldownsBacked.wait (h : CooldownsBacked tr w) (ms : ℕ) :
    CooldownsBacked tr (passTime ms w) := by
  intro userId p hp deadline hd
  obtain ⟨hd, hlt⟩ := Option.filter_eq_some_iff.mp hd
  obtain ⟨-, s, hs, htime, hle, hpub⟩ := h userId p hp deadline hd
  have hnow : (passTime ms w).now = w.now + ms := rfl
  refine ⟨of_decide_eq_true hlt, s, hs, htime, ?_, hpub⟩
  rw [hnow]
  omega

/-- A threshold that is silenced was announced within the hour. -/
theorem Announced.of_silenced (h : CooldownsBacked tr w) (hnow : w.now = s.before.now)
    (hp : p ∈ QUOTA_ALERT_THRESHOLDS) (hs : Silenced userId p w) : Announced tr s userId p := by
  obtain ⟨deadline, hd⟩ := Option.isSome_iff_exists.mp hs
  obtain ⟨hlt, s', hs', htime, hle, hpub⟩ := h userId p hp deadline hd
  exact ⟨s', hs', by omega, by omega, hpub⟩

theorem Announced.mono {tr' : List AlertServed} (h : Announced tr s userId p) :
    Announced (tr ++ tr') s userId p := by
  obtain ⟨s', hs', hafter, hle, hpub⟩ := h
  exact ⟨s', List.mem_append_left _ hs', hafter, hle, hpub⟩

/-- Runs in which every PUBLISH succeeds keep the keys backed and announce what is reached. -/
theorem AlertRuns.announced (h : AlertRuns env w₀ tr w) (hstart : ∀ key, w₀.cooldowns key = none)
    (hserved : ∀ s ∈ tr, PublishesServed s.done.log) : CooldownsBacked tr w ∧
      ∀ s ∈ tr, ∀ userId, ∀ p ∈ QUOTA_ALERT_THRESHOLDS, Crosses env s userId p →
        Announced tr s userId p := by
  induction h with
  | start =>
    refine ⟨fun userId p _ deadline hd => ?_, fun s hs => absurd hs List.not_mem_nil⟩
    rw [hstart] at hd
    exact absurd hd (by simp)
  | @upload tr w userId blobSize fault _ hfault ih =>
    obtain ⟨hbacked, hall⟩ := ih fun s hs => hserved s (List.mem_append_left _ hs)
    have hlogs := (@recordUploadAlerted_effect env fault userId w blobSize hfault).logs
    have hlast := hserved _ (List.mem_append_right tr (List.mem_singleton_self _))
    have hstep (heffect : AlertEffect userId w
        (Prog.run (env.failing fault) (recordUploadAlerted userId blobSize).run w).log
        (Prog.run (env.failing fault) (recordUploadAlerted userId blobSize).run w).world) :=
      hbacked.step (s := ⟨.recordUpload userId blobSize, w, Prog.run (env.failing fault)
        (recordUploadAlerted userId blobSize).run w⟩) rfl heffect
    split at hlogs
    · next hr =>
      obtain ⟨heffect, hreached⟩ := hlogs hlast
      refine ⟨hstep heffect, fun s hs userId' p hp hcross => ?_⟩
      rcases List.mem_append.mp hs with hs | hs
      · exact (hall s hs userId' p hp hcross).mono
      · obtain rfl := List.mem_singleton.mp hs
        obtain ⟨⟨n, hcall⟩, -, u, q, hu, hq, hpos, hle⟩ := hcross
        obtain ⟨rfl, -⟩ := Call.recordUpload.inj hcall
        exact .of_silenced (hstep heffect) heffect.now hp (hreached u q p hu hq hp hpos hle)
    · next e hr =>
      refine ⟨hstep hlogs, fun s hs userId' p hp hcross => ?_⟩
      rcases List.mem_append.mp hs with hs | hs
      · exact (hall s hs userId' p hp hcross).mono
      · -- an upload that failed leaves nothing
        obtain rfl := List.mem_singleton.mp hs
        exact absurd (hr.symm.trans hcross.2.1) (by simp)
  | @delete tr w userId blobSize _ ih =>
    obtain ⟨hbacked, hall⟩ := ih fun s hs => hserved s (List.mem_append_left _ hs)
    have hquiet := (@ends_alertEffect env (fun _ => none) w _ _ _
      (fun c hc => absurd hc (by simp)) (recordDelete_touches userId blobSize) (by decide)).ends
    rw [failing_nothing] at hquiet
    have heffect : AlertEffect userId w (Prog.run env.exec (recordDelete userId blobSize).run w).log
        (Prog.run env.exec (recordDelete userId blobSize).run w).world := by
      split at hquiet
      · exact AlertEffect.of_eq hquiet.1 hquiet.2
      · exact AlertEffect.of_eq hquiet.1 hquiet.2
    refine ⟨hbacked.step (s := ⟨.recordDelete userId blobSize, w,
      Prog.run env.exec (recordDelete userId blobSize).run w⟩) rfl heffect,
      fun s hs userId' p hp hcross => ?_⟩
    rcases List.mem_append.mp hs with hs | hs
    · exact (hall s hs userId' p hp hcross).mono
    · obtain rfl := List.mem_singleton.mp hs
      obtain ⟨⟨n, hcall⟩, -⟩ := hcross
      exact absurd hcall (by simp)
  | wait _ ih =>
    obtain ⟨hbacked, hall⟩ := ih hserved
    exact ⟨hbacked.wait _, hall⟩

end Runs

/-- As long as no PUBLISH fails, every upload that leaves a threshold reached comes within an hour
of an alert for it. -/
theorem crossings_announced (env : Env) (w₀ w : World) (tr : List AlertServed)
    (hstart : ∀ key, w₀.cooldowns key = none) (h : AlertRuns env w₀ tr w)
    (hserved : ∀ s ∈ tr, PublishesServed s.done.log) :
    ∀ s ∈ tr, ∀ userId, ∀ p ∈ QUOTA_ALERT_THRESHOLDS, Crosses env s userId p →
      Announced tr s userId p :=
  (h.announced hstart hserved).2

/-- A decidable form of `PublishedIn`. -/
def publishedIn (userId : String) (p : Int) (log : ServiceLog) : Bool := log.any fun e =>
  match e with
  | ⟨.publish _ payload, .ok _⟩ => payload.userId = userId && payload.percent = p
  | _ => false

theorem PublishedIn.toBool {userId : String} {p : ℤ} {log : ServiceLog}
    (h : PublishedIn userId p log) : publishedIn userId p log = true := by
  obtain ⟨payload, hmem, hu, hp⟩ := h
  refine List.any_eq_true.mpr ⟨_, hmem, ?_⟩
  simp [hu, hp]

/-- A user of a small quota. -/
def smallQuotaWorld : World :=
  { World.empty with
    quotas := Keyed.Table.empty.insert
      { fullQuota with userId := exampleId 0, storageUsed := 0, storageLimit := 100 } }

def servedUpload (fault : Cmd → Option Fault) (size : Int) (w : World) : AlertServed :=
  ⟨.recordUpload (exampleId 0) (.int size), w,
    Prog.run (exampleEnv.failing fault) (recordUploadAlerted (exampleId 0) (.int size)).run w⟩

def refusesPublish : Cmd → Option Fault
  | .publish _ _ => some ⟨"Socket closed unexpectedly", false⟩
  | _ => none

def refusedPublish : Event Cmd Cmd.Reply → Bool
  | ⟨.publish _ _, .error _⟩ => true
  | _ => false

/-- An upload of 85 bytes crosses the first threshold. -/
def firstCrossing : AlertServed := servedUpload (fun _ => none) 85 smallQuotaWorld

/-- One more byte, ten seconds later. -/
def secondCrossing : AlertServed :=
  servedUpload (fun _ => none) 1 (passTime 10000 firstCrossing.done.world)

/-- The second crossing is silent, and the alert of the first one is less than an hour old. -/
theorem crossings_announced_second :
    publishedIn (exampleId 0) 80 secondCrossing.done.log = false ∧
    Announced [firstCrossing, secondCrossing] secondCrossing (exampleId 0) 80 := by
  have hrun : AlertRuns exampleEnv smallQuotaWorld ([] ++ [firstCrossing] ++ [secondCrossing])
      secondCrossing.done.world :=
    (AlertRuns.start.upload fun c hc => absurd hc (by simp)).wait.upload fun c hc =>
      absurd hc (by simp)
  have hserved : ∀ s ∈ [firstCrossing, secondCrossing], PublishesServed s.done.log := by
    have hall : [firstCrossing, secondCrossing].all (fun s =>
        s.done.log.all fun e => !refusedPublish e) = true := by decide +kernel
    intro s hs channel payload r he
    have hr := List.all_eq_true.mp (List.all_eq_true.mp hall s hs) _ he
    cases r with
    | ok a => rfl
    | error m => exact absurd hr (by simp [refusedPublish])
  have hcross : Crosses exampleEnv secondCrossing (exampleId 0) 80 := by
    refine ⟨⟨.int 1, rfl⟩, by decide +kernel, exampleId 0, { fullQuota with
      userId := exampleId 0, storageUsed := 86, storageLimit := 100, filesCount := 5,
      dailyUploads := 2 }, exampleId_canonical 0, by decide +kernel, by decide, by decide⟩
  exact ⟨by decide +kernel, crossings_announced exampleEnv smallQuotaWorld _ _ (fun _ => rfl) hrun
    hserved _ (List.mem_cons_of_mem _ List.mem_cons_self) (exampleId 0) 80 (by decide) hcross⟩

/-- Ten seconds after an alert that failed. -/
def afterRefused : World :=
  passTime 10000 (servedUpload refusesPublish 85 smallQuotaWorld).done.world

/-- The key is taken, so that the next upload stays silent although PUBLISH works again. -/
theorem crossing_silent : AlertRuns exampleEnv smallQuotaWorld
      [servedUpload refusesPublish 85 smallQuotaWorld, servedUpload (fun _ => none) 1 afterRefused]
      (servedUpload (fun _ => none) 1 afterRefused).done.world ∧
    Crosses exampleEnv (servedUpload (fun _ => none) 1 afterRefused) (exampleId 0) 80 ∧
    ¬ Announced [servedUpload refusesPublish 85 smallQuotaWorld,
        servedUpload (fun _ => none) 1 afterRefused]
      (servedUpload (fun _ => none) 1 afterRefused) (exampleId 0) 80 := by
  have hrefuses : OnlyPublishFails refusesPublish := by
    intro c hc
    cases c with
    | publish channel payload => exact ⟨channel, payload, rfl⟩
    | _ => exact absurd hc (by simp [refusesPublish])
  refine ⟨?_, ?_, ?_⟩
  · have hfirst : AlertRuns exampleEnv smallQuotaWorld
        ([] ++ [servedUpload refusesPublish 85 smallQuotaWorld])
        (servedUpload refusesPublish 85 smallQuotaWorld).done.world := AlertRuns.start.upload hrefuses
    have hwait : AlertRuns exampleEnv smallQuotaWorld
        ([] ++ [servedUpload refusesPublish 85 smallQuotaWorld]) afterRefused := hfirst.wait
    exact hwait.upload fun c hc => absurd hc (by simp)
  · refine ⟨⟨.int 1, rfl⟩, by decide +kernel, exampleId 0, { fullQuota with
      userId := exampleId 0, storageUsed := 86, storageLimit := 100, filesCount := 5,
      dailyUploads := 2 }, exampleId_canonical 0, by decide +kernel, by decide, by decide⟩
  · rintro ⟨s, hs, -, -, hpub⟩
    have hnone : [servedUpload refusesPublish 85 smallQuotaWorld,
        servedUpload (fun _ => none) 1 afterRefused].all (fun s =>
          !publishedIn (exampleId 0) 80 s.done.log) = true := by decide +kernel
    have hs' := List.all_eq_true.mp hnone s hs
    rw [hpub.toBool] at hs'
    exact absurd hs' (by simp)

end WhisprMedia
