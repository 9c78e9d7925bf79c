import WhisprMedia.SerialDeletes
import WhisprMedia.ServiceErrors

/-! The daily limit. A quota row and each of its cached copies count no more uploads than were
recorded since the day they are dated; so a copy that is dated today counts uploads of today. -/
namespace WhisprMedia
open Awaiting Keyed MediaService QuotaService

/-- The user and the day of an upload that was recorded: it was answered with a media that was
not there before. -/
def recordedBy (env : Env) (s : ServiceServed) : Option (String × Int) :=
  match s.call, s.done.result with
  | .upload ownerId _ _ _ _, .ok (.uploaded dto) =>
    if (s.before.media.get dto.media_id).isNone then
      (env.uuidIn ownerId).map fun u => (u, utcDay s.before.now)
    else none
  | _, _ => none

def uploadsRecorded (env : Env) (tr : List ServiceServed) : List (String × Int) :=
  tr.filterMap (recordedBy env)

/-- The row or cached copy `q` of a user counts only recorded uploads from its date on. -/
structure Counted (hist : List (String × Int)) (today : Int) (u : String) (q : UserQuota) :
    Prop where
  dailyUploads : q.dailyUploads ≤ (hist.countP fun r => r.1 = u ∧ q.quotaDate ≤ r.2)
  quotaDate : q.quotaDate ≤ today

structure DailyCounts (env : Env) (hist : List (String × Int)) (w : World) : Prop where
  rows : ∀ u q, w.quotas.get u = some q → Counted hist (utcDay w.now) u q
  cached : ∀ s e, w.quotaCache (cacheKey s) = some e → ∃ u, env.uuidIn s = some u ∧
    ∀ q, ofCached e = .ok q → Counted hist (utcDay w.now) u q
  days : ∀ r ∈ hist, r.2 ≤ utcDay w.now

/-- What was counted is still counted. -/
def CountsKept (env : Env) (w w' : World) : Prop :=
  w'.now = w.now ∧ ∀ hist, DailyCounts env hist w → DailyCounts env hist w'

section Counts
variable {env : Env} {hist : List (String × Int)} {w w' : World} {u : String} {q : UserQuota}

theorem Counted.more {today today' : Int} (h : Counted hist today u q) (ht : today ≤ today')
    (more : List (String × Int)) : Counted (hist ++ more) today' u q := by
  refine ⟨?_, Int.le_trans h.quotaDate ht⟩
  have hle := h.dailyUploads
  rw [List.countP_append]
  omega

theorem Counted.of_eq {today : Int} {q' : UserQuota} (h : Counted hist today u q)
    (hd : q'.dailyUploads = q.dailyUploads) (hq : q'.quotaDate = q.quotaDate) :
    Counted hist today u q' := by
  refine ⟨?_, hq ▸ h.quotaDate⟩
  rw [hd, hq]
  exact h.dailyUploads

/-- A row that counts nothing. -/
theorem counted_zero {today : Int} (hd : q.dailyUploads = 0) (hq : q.quotaDate = today) :
    Counted hist today u q := by
  refine ⟨?_, Int.le_of_eq hq⟩
  rw [hd]
  exact Int.natCast_nonneg _

theorem DailyCounts.more (h : DailyCounts env hist w) (more : List (String × Int))
    (hm : ∀ r ∈ more, r.2 ≤ utcDay w.now) : DailyCounts env (hist ++ more) w := by
  refine ⟨fun u q hq => (h.rows u q hq).more (Int.le_refl _) more, fun s e he => ?_, fun r hr => ?_⟩
  · obtain ⟨u, hu, hall⟩ := h.cached s e he
    exact ⟨u, hu, fun q hq => (hall q hq).more (Int.le_refl _) more⟩
  · rcases List.mem_append.mp hr with hr | hr
    · exact h.days r hr
    · exact hm r hr

/-- Rows that keep their counts and their dates, or count nothing, and no new copies. -/
theorem DailyCounts.step (h : DailyCounts env hist w) (hnow : w'.now = w.now)
    (hrows : ∀ u q', w'.quotas.get u = some q' →
      (∃ q, w.quotas.get u = some q ∧ q'.dailyUploads = q.dailyUploads ∧
        q'.quotaDate = q.quotaDate) ∨ q'.dailyUploads = 0 ∧ q'.quotaDate = utcDay w.now)
    (hcache : ∀ key e, w'.quotaCache key = some e → w.quotaCache key = some e) :
    DailyCounts env hist w' := by
  refine ⟨fun u q' hq' => ?_, fun s e he => hnow ▸ h.cached s e (hcache _ _ he),
    hnow ▸ h.days⟩
  rw [hnow]
  rcases hrows u q' hq' with ⟨q, hq, hd, hdate⟩ | ⟨hd, hdate⟩
  · exact (h.rows u q hq).of_eq hd hdate
  · exact counted_zero hd hdate

theorem CountsKept.refl (w : World) : CountsKept env w w := ⟨rfl, fun _ h => h⟩

theorem CountsKept.trans {w'' : World} (h : CountsKept env w w') (h' : CountsKept env w' w'') :
    CountsKept env w w'' :=
  ⟨h'.1.trans h.1, fun hist hw => h'.2 hist (h.2 hist hw)⟩

/-- Only a SET of the cached quota and a charge can change what is counted. -/
theorem countsKept_exec {c : Cmd} (hfill : c.family ≠ .quotaFill)
    (hcharge : c.family ≠ .quotaCharge) : CountsKept env w (env.exec c w).2 := by
  refine ⟨exec_now, fun hist h => h.step exec_now (fun u q' hq' => ?_)
    fun key e he => quotaCache_before_exec hfill he⟩
  cases quota_step hq' with
  | kept same => exact Or.inl ⟨q', same, rfl, rfl⟩
  | inserted cmd user missing => exact Or.inr ⟨rfl, rfl⟩
  | charged cmd user old => exact absurd (congrArg Cmd.family cmd) hcharge
  | released cmd user old => exact Or.inl ⟨_, old, rfl, rfl⟩
  | reset cmd old before => exact Or.inr ⟨rfl, rfl⟩

/-- A copy of a counted row may be cached. -/
theorem DailyCounts.fill (h : DailyCounts env hist w) {s : String} (hu : env.uuidIn s = some u)
    (hq : Counted hist (utcDay w.now) u q) : DailyCounts env hist { w with
      quotaCache := Function.update w.quotaCache (cacheKey s) (some (toCached q)) } := by
  refine ⟨h.rows, fun s' e he => ?_, h.days⟩
  by_cases hk : cacheKey s' = cacheKey s
  · obtain rfl := cacheKey_injective hk
    have hself := Function.update_self (cacheKey s') (some (toCached q)) w.quotaCache
    obtain rfl := Option.some.inj (hself.symm.trans he)
    refine ⟨u, hu, fun q' hq' => ?_⟩
    rw [ofCached_toCached] at hq'
    exact Except.ok.inj hq' ▸ hq
  · exact h.cached s' e ((Function.update_of_ne hk _ w.quotaCache).symm.trans he)

/-- A charge is counted as an upload of today. -/
theorem DailyCounts.charge (h : DailyCounts env hist w) (u : String) (n : Int) :
    DailyCounts env (hist ++ [(u, utcDay w.now)]) (w.chargeRow u n) := by
  have hmore := h.more [(u, utcDay w.now)]
    fun r hr => List.mem_singleton.mp hr ▸ Int.le_refl _
  refine ⟨fun v q' hq' => ?_, hmore.cached, hmore.days⟩
  rw [get_chargeRow] at hq'
  split at hq'
  · next hv =>
    obtain ⟨q, hq, rfl⟩ := Option.map_eq_some_iff.mp hq'
    subst hv
    obtain ⟨hd, hdate⟩ := h.rows v q hq
    refine ⟨?_, hdate⟩
    have hcount : (hist ++ [(v, utcDay w.now)]).countP (fun r => r.1 = v ∧ q.quotaDate ≤ r.2) =
        hist.countP (fun r => r.1 = v ∧ q.quotaDate ≤ r.2) + 1 := by
      rw [List.countP_append, List.countP_singleton, if_pos (by simpa using hdate)]
    show q.dailyUploads + 1 ≤
      ((hist ++ [(v, utcDay w.now)]).countP fun r => r.1 = v ∧ q.quotaDate ≤ r.2 : ℕ)
    rw [hcount]
    omega
  · exact hmore.rows v q' hq'

end Counts

/-! The parts of the calls -/

section Parts
variable {env : Env} {w : World} {userId : String} {α : Type}

theorem ends_counts {F : List Family} {x : Svc α} (hx : Touches F x)
    (hF : ∀ f ∈ F, f ≠ .quotaFill ∧ f ≠ .quotaCharge) :
    ProgE.Ends env.exec x w (fun _ => CountsKept env w) (fun _ => CountsKept env w) :=
  ends_of_touches hx CountsKept.refl (fun _ _ _ h h' => h.trans h') fun _ _ hc =>
    countsKept_exec (hF _ hc).1 (hF _ hc).2

theorem quotaReadRel_counts : QuotaReadRel env userId (CountsKept env) where
  refl := CountsKept.refl
  trans _ _ _ := CountsKept.trans
  lookup _ := ends_counts (findOrInsertRow_touches userId) (by decide)
  fill hu hq := ⟨rfl, fun _ hw => hw.fill hu (hw.rows _ _ hq)⟩

theorem checkAndPublishQuotaAlert_counts :
    ProgE.Ends env.exec (checkAndPublishQuotaAlert userId) w
      (fun _ => CountsKept env w) (fun _ => CountsKept env w) := by
  refine ProgE.Ends.bind_trans (S := CountsKept env) (fun _ _ _ => CountsKept.trans)
    (getOrCreateQuota_rel quotaReadRel_counts) fun quota u => ?_
  split
  · exact ProgE.ends_pure (CountsKept.refl u)
  · exact ends_counts (publishQuotaAlerts_touches _ _ _ _) (by decide)

end Parts

/-! Uploads -/

/-- The copy of the quota that a check reads in this world, unless it has to insert the row. -/
def checkedQuota (env : Env) (w : World) (userId : String) : Option UserQuota :=
  match w.quotaCache (cacheKey userId) with
  | some cached => (ofCached cached).toOption
  | none => (env.uuidIn userId).bind fun u => w.quotas.get u

/-- The report is about the copy that a check reads, or the daily limit is not reached. -/
def Refused (env : Env) (w : World) (userId : String) (r : QuotaCheckResult) : Prop :=
  ∃ q size, r = checkResult q size ∧
    (checkedQuota env w userId = some q ∨ q.dailyUploads < q.dailyUploadLimit)

/-- What an answered upload does to the counts: nothing, or it was answered with a new media and
counts as one upload of today. -/
def UploadCounts (env : Env) (ownerId : String) (w : World) (dto : UploadMediaResponseDto)
    (w' : World) : Prop :=
  CountsKept env w w' ∨ w.media.get dto.media_id = none ∧ w'.now = w.now ∧
    ∃ u, env.uuidIn ownerId = some u ∧ ∀ hist, DailyCounts env hist w →
      DailyCounts env (hist ++ [(u, utcDay w.now)]) w'

/-- A part that leaves counts and media rows alone. -/
def CountsCalm (env : Env) (w w' : World) : Prop := CountsKept env w w' ∧ w'.media = w.media

section Uploads
variable {env : Env} {ownerId : String} {file : File} {context : MediaContext}
  {thumbnailFile : Option File} {sharedWith : Option (List String)} {w w₀ w' : World} {α : Type}

theorem UploadCounts.before {dto : UploadMediaResponseDto} (h : UploadCounts env ownerId w dto w')
    (hc : CountsCalm env w₀ w) : UploadCounts env ownerId w₀ dto w' := by
  rcases h with h | ⟨hnew, hnow, h⟩
  · exact Or.inl (hc.1.trans h)
  · obtain ⟨u, hu, h⟩ := h
    refine Or.inr ⟨hc.2 ▸ hnew, hnow.trans hc.1.1, u, hu, fun hist hw => ?_⟩
    rw [← hc.1.1]
    exact h hist (hc.1.2 hist hw)

theorem UploadCounts.after {dto : UploadMediaResponseDto} {w'' : World}
    (h : UploadCounts env ownerId w dto w') (hk : CountsKept env w' w'') :
    UploadCounts env ownerId w dto w'' := by
  rcases h with h | ⟨hnew, hnow, h⟩
  · exact Or.inl (h.trans hk)
  · obtain ⟨u, hu, h⟩ := h
    exact Or.inr ⟨hnew, hk.1.trans hnow, u, hu, fun hist hw => hk.2 _ (h hist hw)⟩

theorem ends_countsCalm {F : List Family} {x : Svc α} (hx : Touches F x)
    (hF : ∀ f ∈ F, f.calm = true ∧ f ≠ .quotaFill ∧ f ≠ .quotaCharge) :
    ProgE.Ends env.exec x w (fun _ => CountsCalm env w) (fun _ => CountsCalm env w) :=
  ((ends_counts hx fun f hf => (hF f hf).2).and
    (ends_calm (faithful_exec env) hx fun f hf => (hF f hf).1)).mono
    (fun _ _ h => ⟨h.1, h.2.rows⟩) fun _ _ h => ⟨h.1, h.2.rows⟩

theorem recordUpload_counts (n : JsNumber) : ProgE.Ends env.exec (recordUpload ownerId n) w
    (fun _ w' => w'.now = w.now ∧ ∃ u, env.uuidIn ownerId = some u ∧ ∀ hist,
      DailyCounts env hist w → DailyCounts env (hist ++ [(u, utcDay w.now)]) w')
    (fun _ w' => CountsKept env w w') := by
  refine ends_sync_bind (fun _ _ => CountsKept.refl w) fun _ _ => ?_
  cases hu : env.uuidIn ownerId with
  | none =>
    refine ProgE.Ends.bind (Q := fun _ _ => False) (ends_await fun r u he => ?_) fun _ _ h => h.elim
    simp only [Env.exec, hu] at he
    obtain ⟨rfl, rfl⟩ := Prod.mk.inj he
    exact CountsKept.refl w
  | some u =>
    refine ends_await_bind (exec_chargeQuota hu _) (ends_sync_bind (fun e he => ?_) fun _ _ => ?_)
    · -- without a row nothing was charged
      have hnone : w.quotas.get u = none := by
        have h := enforceAffected_error he
        split at h
        · exact absurd h (by simp)
        · next hs => simpa using hs
      refine ⟨rfl, fun hist hw => hw.step rfl (fun v q' hq' => Or.inl ⟨q', ?_, rfl, rfl⟩)
        fun _ _ he => he⟩
      rw [get_chargeRow] at hq'
      split at hq'
      · rw [hnone] at hq'
        exact absurd hq' (by simp)
      · exact hq'
    · refine ends_quietly_bind (v := ()) rfl (ends_await_ok (v := ()) rfl ?_)
      refine ⟨rfl, u, rfl, fun hist hw => ?_⟩
      exact (countsKept_exec (c := .delQuota (cacheKey ownerId)) (by simp [Cmd.family])
        (by simp [Cmd.family])).2 _ (hw.charge u _)

/-- Once the quota allows it, an upload counts as its answer says, and no error of it is about
the quota. -/
theorem uploadAllowed_counts :
    ProgE.Ends env.exec (do
        validateFile env file context
        let key := dedupKey ownerId context (env.sha256 (fileBuffer file))
        match ← findDuplicate ownerId key with
        -- a duplicate is answered, and nothing is recorded
        | some existing => do
          mergeSharedWith ownerId existing sharedWith
          buildUploadResponse env existing
        -- the row is new, and it is counted for the day of the upload
        | none => do
          let media ← storeNew env ownerId file context thumbnailFile sharedWith
          await (.setDedup key media.id DEDUP_CACHE_TTL_MS)
          recordUpload ownerId (.int file.size)
          buildUploadResponse env media) w
      (UploadCounts env ownerId w) (fun e w' => CountsKept env w w' ∧ e.Ordinary) := by
  refine ProgE.Ends.bind (((ends_countsCalm (validateFile_touches env file context)
    (by decide)).and_throws (validateFile_ordinary file context)).mono (fun _ _ h => h)
    fun _ _ h => ⟨h.1.1, h.2⟩) fun _ w₁ h₁ => ?_
  refine ProgE.Ends.bind (((findDuplicate_ends _).and_throws
    (findDuplicate_ordinary ownerId _)).mono (fun _ _ h => h)
    fun _ _ h => ⟨h.1 ▸ h₁.1, h.2⟩) fun existing w₂ h₂ => ?_
  have hc : CountsCalm env w w₂ := h₂.1 ▸ h₁
  have hbuild (media : Media) (u : World) : ProgE.Ends env.exec (buildUploadResponse env media) u
      (fun dto w' => w' = u ∧ dto.media_id = media.id) fun _ _ => False :=
    buildUploadResponse_ends media
  cases existing with
  | some existing =>
    refine ProgE.Ends.bind (((ends_counts (mergeSharedWith_touches ownerId existing sharedWith)
      (by decide)).and_throws (mergeSharedWith_ordinary ownerId existing sharedWith)).mono
      (fun _ _ h => h) fun _ _ h => ⟨hc.1.trans h.1, h.2⟩) fun _ w₃ h₃ => ?_
    refine (hbuild existing w₃).mono (fun dto w' h => ?_) fun _ _ h => h.elim
    rw [h.1]
    exact Or.inl (hc.1.trans h₃)
  | none =>
    refine ProgE.Ends.bind (((storeNew_ends.and (ends_counts (storeNew_touches env ownerId file
      context thumbnailFile sharedWith) (by decide))).and_throws
      (storeNew_ordinary ownerId file context thumbnailFile sharedWith)).mono (fun _ _ h => h)
      fun _ _ h => ⟨hc.1.trans h.1.2, h.2⟩) fun media w₃ h₃ => ?_
    obtain ⟨⟨m, hid, -, -, hfresh, -⟩, hk⟩ := h₃
    have hnew : w.media.get media.id = none := by rw [← hc.2, hid, hfresh]
    have hset := @countsKept_exec env w₃
      (.setDedup (dedupKey ownerId context (env.sha256 (fileBuffer file))) media.id
        DEDUP_CACHE_TTL_MS) (by simp [Cmd.family]) (by simp [Cmd.family])
    have hbefore := (hc.1.trans hk).trans hset
    refine ends_await_bind (v := ()) rfl ?_
    refine ProgE.Ends.bind (((recordUpload_counts _).and_throws
      (recordUpload_ordinary ownerId _)).mono (fun _ _ h => h)
      fun _ _ h => ⟨hbefore.trans h.1, h.2⟩) fun _ w₅ h₅ => ?_
    refine (hbuild media w₅).mono (fun dto w' h => ?_) fun _ _ h => h.elim
    obtain ⟨rfl, hdto⟩ := h
    obtain ⟨hnow, u, hu, hcount⟩ := h₅
    refine Or.inr ⟨hdto ▸ hnew, hnow.trans hbefore.1, u, hu, fun hist hw => ?_⟩
    have hday : utcDay w₃.now = utcDay w.now := congrArg utcDay (hc.1.trans hk).1
    exact hday ▸ hcount hist (hbefore.2 hist hw)

end Uploads

section Calls
variable {env : Env} {ownerId : String} {file : File} {context : MediaContext}
  {thumbnailFile : Option File} {sharedWith : Option (List String)} {w w₀ w' : World}

theorem QuotaRead.checked {q : UserQuota} (h : QuotaRead env ownerId w q w') :
    checkedQuota env w ownerId = some q ∨ q.dailyUploads < q.dailyUploadLimit := by
  unfold checkedQuota
  rcases h.source with ⟨e, he, hq, -⟩ | ⟨hnone, u, hu, -, hq | ⟨-, rfl⟩, -⟩
  · rw [he]
    exact Or.inl (by simp [hq, Except.toOption])
  · rw [hnone]
    exact Or.inl (by simp [hu, hq])
  · -- a row that has just been inserted is far from its limit
    exact Or.inr (show (0 : Int) < DEFAULT_DAILY_UPLOAD_LIMIT by decide)

theorem checkedQuota_idle (h : Idle w₀ w) :
    checkedQuota env w ownerId = checkedQuota env w₀ ownerId := by
  unfold checkedQuota
  rw [h.quotaCache, h.quotaRows]

theorem Refused.idle {r : QuotaCheckResult} (h : Refused env w ownerId r) (hi : Idle w₀ w) :
    Refused env w₀ ownerId r := by
  obtain ⟨q, size, hr, hq⟩ := h
  exact ⟨q, size, hr, checkedQuota_idle hi ▸ hq⟩

theorem uploadHeld_counts :
    ProgE.Ends env.exec (uploadHeld env ownerId file context thumbnailFile sharedWith) w
      (UploadCounts env ownerId w)
      (fun e w' => CountsKept env w w' ∧ ∀ r, e = .quotaExceeded r → Refused env w ownerId r) := by
  have hord {e : Err} (h : e.Ordinary) (r : QuotaCheckResult) (he : e = .quotaExceeded r) :
      Refused env w ownerId r := absurd he (h.ne r)
  refine ProgE.Ends.bind ((((ends_countsCalm (authorizeGroupIconUpload_touches env context
    ownerId) (by decide)).and (ends_idle (faithful_exec env) (authorizeGroupIconUpload_touches env
    context ownerId) (by decide))).and_throws (authorizeGroupIconUpload_ordinary context
    ownerId)).mono (fun _ _ h => h) fun _ _ h => ⟨h.1.1.1, hord h.2⟩) fun _ w₁ h₁ => ?_
  obtain ⟨hc, hi⟩ := h₁
  -- the check reads the quota of the world before, and only it reports an exceeded quota
  refine ProgE.Ends.bind ((((enforceQuota_ends file.size).and (enforceQuota_rel quotaReadRel_counts _)).and_throws
    (enforceQuota_error ownerId _)).mono (fun _ _ h => h) fun e w' h => ?_) fun _ w₂ h₂ => ?_
  · obtain ⟨⟨⟨-, hread⟩, hk⟩, herr⟩ := h
    refine ⟨hc.1.trans hk, fun r hr => ?_⟩
    rcases hread with he | ⟨q, reason, hq, -, he⟩
    · exact hord he r hr
    · exact Refused.idle ⟨q, file.size, Err.quotaExceeded.inj (hr.symm.trans he), hq.checked⟩ hi
  · obtain ⟨⟨-, q, hread, -⟩, hk⟩ := h₂
    have hc₂ : CountsCalm env w w₂ := ⟨hc.1.trans hk, hread.calm.rows.trans hc.2⟩
    exact uploadAllowed_counts.mono (fun _ _ h => h.before hc₂) fun _ _ h =>
      ⟨hc₂.1.trans h.1, hord h.2⟩

theorem upload_counts :
    ProgE.Ends env.exec (upload env ownerId file context thumbnailFile sharedWith) w
      (UploadCounts env ownerId w)
      (fun e w' => CountsKept env w w' ∧ ∀ r, e = .quotaExceeded r → Refused env w ownerId r) := by
  have hrelease (u : World) : ProgE.Ends env.exec (releaseSemaphore ownerId) u
      (fun _ w' => CountsKept env u w') fun _ _ => False :=
    ((ends_counts (releaseSemaphore_touches ownerId) (by decide)).and releaseSemaphore_ends).mono
      (fun _ _ h => h.1) fun _ _ h => h.2
  refine ProgE.Ends.bind ((((ends_countsCalm (acquireSemaphore_touches ownerId) (by decide)).and
    (ends_idle (faithful_exec env) (acquireSemaphore_touches ownerId) (by decide))).and_throws
    (acquireSemaphore_error ownerId)).mono (fun _ _ h => h)
    fun _ _ h => ⟨h.1.1.1, fun r hr => absurd hr (h.2 r)⟩) fun _ w₁ h₁ => ?_
  refine ProgE.Ends.ensuring uploadHeld_counts (fun dto w' h => ?_) fun e w' h => ?_
  · exact (hrelease w').mono (fun _ _ hr => (h.after hr).before h₁.1) fun _ _ h => h.elim
  · exact (hrelease w').mono (fun _ _ hr => ⟨(h₁.1.1.trans h.1).trans hr,
      fun r he => (h.2 r he).idle h₁.2⟩) fun _ _ h => h.elim

end Calls

/-! Runs over any number of days -/

/-- The user whose upload a call is. -/
def Call.uploader? : Call → Option String
  | .upload ownerId _ _ _ _ => some ownerId
  | _ => none

/-- What may happen: everything but the updates of the quota on their own; the surroundings act
at any time, and the reset may not run for days. -/
def DailySteps (_ : World) : Label Call Act → Prop
  | .call (.recordUpload _ _) | .call (.recordDelete _ _) => False
  | .call _ | .act _ => True
  | .step _ => False

/-- The rows at the start count no uploads, and nothing is cached. -/
structure DailyStart (w : World) : Prop where
  rows : ∀ u q, w.quotas.get u = some q → q.dailyUploads ≤ 0 ∧ q.quotaDate ≤ utcDay w.now
  cache : ∀ key, w.quotaCache key = none

/-- An upload is checked against a quota that is dated today, that has room for another upload
today, or since whose date the user has recorded uploads only today. -/
def DailyCurrent (env : Env) (pre : List ServiceServed) (s : ServiceServed) : Prop :=
  ∀ ownerId, s.call.uploader? = some ownerId → ∀ q, checkedQuota env s.before ownerId = some q →
    q.quotaDate = utcDay s.before.now ∨ q.dailyUploads < q.dailyUploadLimit ∨
      ∀ r ∈ uploadsRecorded env pre, env.uuidIn ownerId = some r.1 → q.quotaDate ≤ r.2 →
        r.2 = utcDay s.before.now

/-- If the upload is refused for the daily limit, its user has recorded as many uploads today. -/
def DailyRefusal (env : Env) (pre : List ServiceServed) (s : ServiceServed) : Prop :=
  ∀ ownerId r, s.call.uploader? = some ownerId → s.done.result = .error (.quotaExceeded r) →
    r.reason = some "Daily upload limit exceeded" → ∃ u, env.uuidIn ownerId = some u ∧
      r.dailyUploadLimit ≤ ((uploadsRecorded env pre).count (u, utcDay s.before.now) : ℕ)

section Runs
variable {env : Env} {hist : List (String × Int)} {w w₀ : World}

theorem uploadsRecorded_append (tr tr' : List ServiceServed) :
    uploadsRecorded env (tr ++ tr') = uploadsRecorded env tr ++ uploadsRecorded env tr' := List.filterMap_append

theorem uploadsRecorded_singleton (s : ServiceServed) : uploadsRecorded env [s] = (recordedBy env s).toList := by
  unfold uploadsRecorded
  cases h : recordedBy env s with
  | none => rw [List.filterMap_cons_none h]; rfl
  | some r => rw [List.filterMap_cons_some h]; rfl

theorem dailyCounts_start (h : DailyStart w) : DailyCounts env [] w :=
  ⟨fun u q hq => ⟨by simpa using (h.rows u q hq).1, (h.rows u q hq).2⟩, fun s e he => absurd ((h.cache _).symm.trans he) (by simp),
    fun _ hr => absurd hr List.not_mem_nil⟩

/-- Every call counts what it has recorded. -/
theorem dailyCounts_serve (h : DailyCounts env hist w) {x : Call} (hx : DailySteps w (.call x)) :
    DailyCounts env (hist ++ uploadsRecorded env [⟨x, w, (service env).serve x w⟩])
      ((service env).serve x w).world ∧ ((service env).serve x w).world.now = w.now := by
  -- calls that upload nothing record nothing
  have hkept {x : Call} (hup : x.uploader? = none)
      (hends : ProgE.Ends env.exec (handle env x) w (fun _ => CountsKept env w)
        (fun _ => CountsKept env w)) : DailyCounts env
      (hist ++ uploadsRecorded env [⟨x, w, (service env).serve x w⟩])
      ((service env).serve x w).world ∧ ((service env).serve x w).world.now = w.now := by
    have hk : CountsKept env w ((service env).serve x w).world := by
      cases hr : ((service env).serve x w).result with
      | ok rep => exact hends.of_ok hr
      | error e => exact hends.of_error hr
    have hnone : uploadsRecorded env [⟨x, w, (service env).serve x w⟩] = [] := by
      cases x <;> first
        | rfl
        | exact absurd hup (by simp [Call.uploader?])
    rw [hnone, List.append_nil]
    exact ⟨hk.2 hist h, hk.1⟩
  cases x with
  | upload o f c t s =>
    have hends : ProgE.Ends env.exec (handle env (.upload o f c t s)) w
        (fun rep w' => ∃ dto, rep = Reply.uploaded dto ∧ UploadCounts env o w dto w')
        (fun _ w' => CountsKept env w w') :=
      (upload_counts.mono (fun _ _ h => h) fun _ _ h => h.1).map fun dto w' h => ⟨dto, rfl, h⟩
    cases hr : ((service env).serve (.upload o f c t s) w).result with
    | error e =>
      have hk := hends.of_error hr
      have hnone : recordedBy env ⟨.upload o f c t s, w, (service env).serve (.upload o f c t s) w⟩ =
          none := by simp only [recordedBy, hr]
      rw [uploadsRecorded_singleton, hnone, Option.toList_none, List.append_nil]
      exact ⟨hk.2 hist h, hk.1⟩
    | ok rep =>
      obtain ⟨dto, rfl, hcounts⟩ := hends.of_ok hr
      have hrec : recordedBy env ⟨.upload o f c t s, w, (service env).serve (.upload o f c t s) w⟩ =
          if (w.media.get dto.media_id).isNone then (env.uuidIn o).map fun u => (u, utcDay w.now)
          else none := by simp only [recordedBy, hr]
      rw [uploadsRecorded_singleton, hrec]
      rcases hcounts with hk | ⟨hnew, hnow, u, hu, hcount⟩
      · -- a duplicate: the row counts no more than the history lists
        refine ⟨(hk.2 hist h).more _ fun r hmem => ?_, hk.1⟩
        split at hmem
        · obtain ⟨u, -, rfl⟩ := Option.map_eq_some_iff.mp (Option.mem_toList.mp hmem)
          exact Int.le_of_eq (congrArg utcDay hk.1).symm
        · exact absurd hmem (by simp)
      · refine ⟨?_, hnow⟩
        rw [hnew, hu]
        exact hcount hist h
  | checkQuota u n => exact hkept rfl ((checkQuota_rel quotaReadRel_counts n).map fun _ _ h => h)
  | checkAndPublishQuotaAlert u =>
    exact hkept rfl (checkAndPublishQuotaAlert_counts.map fun _ _ h => h)
  | recordUpload u n => exact hx.elim
  | recordDelete u n => exact hx.elim
  | _ => exact hkept rfl (ends_counts (handle_families env _) (by simp [Call.families]))

/-- A refusal for the quota reports the copy that was read. -/
theorem serve_refused {x : Call} {ownerId : String} {r : QuotaCheckResult}
    (hup : x.uploader? = some ownerId)
    (hr : ((service env).serve x w).result = .error (.quotaExceeded r)) :
    Refused env w ownerId r := by
  cases x <;> simp only [Call.uploader?, Option.some.injEq, reduceCtorEq] at hup
  case upload o f c t s =>
    subst hup
    have hends : ProgE.Ends env.exec (handle env (.upload o f c t s)) w (fun _ _ => True)
        (fun e _ => ∀ r, e = .quotaExceeded r → Refused env w o r) :=
      (upload_counts.mono (fun _ _ _ => trivial) fun _ _ h => h.2).map fun _ _ _ => trivial
    exact hends.of_error hr r rfl

theorem exceeded_daily {q : UserQuota} {size : Int}
    (h : exceeded q size = some "Daily upload limit exceeded") :
    q.dailyUploadLimit ≤ q.dailyUploads := by
  unfold exceeded at h
  split at h
  · exact absurd h (by decide)
  · split at h
    · exact absurd h (by decide)
    · split at h
      · next hd => exact hd
      · exact absurd h (by simp)

theorem DailyCounts.checked (h : DailyCounts env hist w) {userId : String} {q : UserQuota}
    (hq : checkedQuota env w userId = some q) :
    ∃ u, env.uuidIn userId = some u ∧ Counted hist (utcDay w.now) u q := by
  unfold checkedQuota at hq
  split at hq
  · next e he =>
    obtain ⟨u, hu, hall⟩ := h.cached userId e he
    refine ⟨u, hu, hall q ?_⟩
    cases ho : ofCached e with
    | ok q' =>
      rw [ho] at hq
      exact congrArg Except.ok (Option.some.inj hq)
    | error e' =>
      rw [ho] at hq
      exact absurd hq (by simp [Except.toOption])
  · obtain ⟨u, hu, hget⟩ := Option.bind_eq_some_iff.mp hq
    exact ⟨u, hu, h.rows u q hget⟩

/-- What the counts say of a refusal. -/
theorem dailyRefusal_of_counts {pre : List ServiceServed} {x : Call}
    (h : DailyCounts env (uploadsRecorded env pre) w)
    (hcur : DailyCurrent env pre ⟨x, w, (service env).serve x w⟩) :
    DailyRefusal env pre ⟨x, w, (service env).serve x w⟩ := by
  intro ownerId r hup hr hreason
  obtain ⟨q, size, rfl, hq⟩ := serve_refused hup hr
  have hfull : q.dailyUploadLimit ≤ q.dailyUploads := exceeded_daily hreason
  have hq' := hq.resolve_right (by omega)
  obtain ⟨u, hu, hcounted⟩ := h.checked hq'
  refine ⟨u, hu, ?_⟩
  -- whatever the copy counts was recorded today
  have htoday : ∀ r ∈ uploadsRecorded env pre, r.1 = u → q.quotaDate ≤ r.2 → r.2 = utcDay w.now := by
    intro r hmem hru hle
    rcases hcur ownerId hup q hq' with hdate | hroom | hsince
    · have hday := h.days r hmem
      have hdate' : q.quotaDate = utcDay w.now := hdate
      omega
    · omega
    · exact hsince r hmem (hru ▸ hu) hle
  have hle : (uploadsRecorded env pre).countP (fun r => r.1 = u ∧ q.quotaDate ≤ r.2) ≤
      (uploadsRecorded env pre).count (u, utcDay w.now) := by
    refine List.countP_mono_left fun r hmem hp => ?_
    obtain ⟨hru, hdate⟩ : r.1 = u ∧ q.quotaDate ≤ r.2 := by simpa using hp
    have hr2 := htoday r hmem hru hdate
    simp [← hru, ← hr2]
  have hcount := hcounted.dailyUploads
  show q.dailyUploadLimit ≤ ((uploadsRecorded env pre).count (u, utcDay w.now) : ℕ)
  omega

theorem dailyCounts_act (h : DailyCounts env hist w) (a : Act) :
    DailyCounts env hist (a.apply w) := by
  -- the day only moves on
  have hday : utcDay w.now ≤ utcDay (a.apply w).now :=
    Int.ediv_le_ediv (by decide) (now_le_act a)
  have hlater {u : String} {q : UserQuota} (hq : Counted hist (utcDay w.now) u q) :
      Counted hist (utcDay (a.apply w).now) u q :=
    ⟨hq.dailyUploads, Int.le_trans hq.quotaDate hday⟩
  refine ⟨fun u q hq => hlater (h.rows u q (act_quotas a w ▸ hq)), fun s e he => ?_,
    fun r hr => Int.le_trans (h.days r hr) hday⟩
  obtain ⟨u, hu, hall⟩ := h.cached s e (act_quotaCache he)
  exact ⟨u, hu, fun q hq => hlater (hall q hq)⟩

/-- If every upload is checked against a current count, the daily limit counts only uploads of
today. -/
theorem daily_limit_counts_today {tr : List ServiceServed} (h₀ : DailyStart w₀)
    (hr : (service env).Serial DailySteps w₀ tr w)
    (hcur : ∀ pre s post, tr = pre ++ s :: post → DailyCurrent env pre s) :
    ∀ pre s post, tr = pre ++ s :: post → DailyRefusal env pre s := by
  suffices h : DailyCounts env (uploadsRecorded env tr) w ∧
      ∀ pre s post, tr = pre ++ s :: post → DailyRefusal env pre s from h.2
  induction hr with
  | refl =>
    refine ⟨dailyCounts_start h₀, fun pre s post h => ?_⟩
    exact absurd h (by simp)
  | @call tr u x _ hok ih =>
    obtain ⟨hcounts, hall⟩ := ih fun pre s post h =>
      hcur pre s (post ++ [⟨x, u, (service env).serve x u⟩]) (by rw [h]; simp)
    refine ⟨@uploadsRecorded_append env tr _ ▸ (dailyCounts_serve hcounts hok).1,
      fun pre s post h => ?_⟩
    rcases List.eq_nil_or_concat post with rfl | ⟨post', s', rfl⟩
    · obtain ⟨rfl, hs⟩ := List.append_inj' h rfl
      obtain rfl := (List.cons.inj hs).1
      exact dailyRefusal_of_counts hcounts (hcur tr _ [] rfl)
    · rw [List.concat_eq_append, ← List.cons_append, ← List.append_assoc] at h
      exact hall pre s post' (List.append_inj' h rfl).1
  | @act tr u a _ _ ih =>
    obtain ⟨hcounts, hall⟩ := ih hcur
    exact ⟨dailyCounts_act hcounts a, hall⟩

end Runs

/-! One upload a day -/

/-- A user who may upload once a day. -/
def oneADay : World := { World.empty with
  quotas := Table.empty.insert ⟨exampleId 1, exampleId 7, 0, DEFAULT_STORAGE_LIMIT_BYTES, 0,
    DEFAULT_FILES_LIMIT, 0, 1, 0⟩ }

theorem oneADay_start : DailyStart oneADay := by
  refine ⟨fun u q hq => ?_, fun _ => rfl⟩
  obtain ⟨hmem, -⟩ := Table.get_some.mp hq
  obtain rfl : q = ⟨exampleId 1, exampleId 7, 0, DEFAULT_STORAGE_LIMIT_BYTES, 0,
    DEFAULT_FILES_LIMIT, 0, 1, 0⟩ := by simpa [oneADay, Table.insert, Table.empty] using hmem
  exact ⟨Int.le_refl _, by decide⟩

/-- A file of its own length, so that no two of them are duplicates here. -/
def bytesUpload (n : ℕ) : Call :=
  .upload (exampleId 7) ⟨"application/octet-stream", n, some (List.replicate n 0), none⟩ .MESSAGE
    none none

/-- An upload after some milliseconds. -/
def uploadAfter (w : World) (ms n : ℕ) : ServiceServed :=
  let w' := (Act.tick ms).apply w
  ⟨bytesUpload n, w', (service exampleEnv).serve (bytesUpload n) w'⟩

/-- Two uploads on one day. -/
def sameDay : List ServiceServed :=
  let s := uploadAfter oneADay 1000 1
  [s, uploadAfter s.done.world 1000 2]

/-- Two uploads on two days, without a reset between them. -/
def nextDay : List ServiceServed :=
  let s := uploadAfter oneADay 1000 1
  [s, uploadAfter s.done.world (24 * 60 * 60 * 1000) 2]

theorem serial_uploadAfter {w₀ w : World} {tr : List ServiceServed}
    (h : (service exampleEnv).Serial DailySteps w₀ tr w) (ms n : ℕ) :
    (service exampleEnv).Serial DailySteps w₀ (tr ++ [uploadAfter w ms n])
      (uploadAfter w ms n).done.world :=
  .call (System.Serial.act (a := Act.tick ms) h trivial) trivial

theorem daily_limit_counts_today_sameDay : DailyRefusal exampleEnv [uploadAfter oneADay 1000 1]
    (uploadAfter (uploadAfter oneADay 1000 1).done.world 1000 2) := by
  have hdated : ∀ s ∈ sameDay, s.call.uploader? = some (exampleId 7) ∧
      ∀ q ∈ checkedQuota exampleEnv s.before (exampleId 7), q.quotaDate = utcDay s.before.now := by
    decide +kernel
  have hcurrent : ∀ pre s post, sameDay = pre ++ s :: post → DailyCurrent exampleEnv pre s := by
    intro pre s post h ownerId hup q hq
    obtain ⟨hid, hall⟩ := hdated s (h ▸ by simp)
    obtain rfl := Option.some.inj (hid.symm.trans hup)
    exact Or.inl (hall q hq)
  have hrun := serial_uploadAfter (serial_uploadAfter (.refl oneADay) 1000 1) 1000 2
  exact daily_limit_counts_today oneADay_start hrun hcurrent _ _ [] rfl

/-- The upload of the second day is refused, although none was recorded on that day. -/
theorem nextDay_refused : (∃ w, (service exampleEnv).Serial DailySteps oneADay nextDay w) ∧
    ∃ pre s post, nextDay = pre ++ s :: post ∧ ¬ DailyRefusal exampleEnv pre s := by
  refine ⟨⟨_, serial_uploadAfter (serial_uploadAfter (.refl oneADay) _ _) _ _⟩,
    [uploadAfter oneADay 1000 1], _, [], rfl, fun h => ?_⟩
  have hresult : (uploadAfter (uploadAfter oneADay 1000 1).done.world (24 * 60 * 60 * 1000)
      2).done.result = .error (.quotaExceeded ⟨false, some "Daily upload limit exceeded", 1,
        DEFAULT_STORAGE_LIMIT_BYTES, 1, DEFAULT_FILES_LIMIT, 1, 1⟩) := by decide +kernel
  have hnone : (uploadsRecorded exampleEnv [uploadAfter oneADay 1000 1]).all fun r => r.2 = 0 := by
    decide +kernel
  obtain ⟨u, -, hle⟩ := h (exampleId 7) _ rfl hresult rfl
  have hcount : (uploadsRecorded exampleEnv [uploadAfter oneADay 1000 1]).count (u, 1) = 0 := by
    refine List.count_eq_zero.mpr fun hmem => ?_
    have hday := List.all_eq_true.mp hnone _ hmem
    exact absurd hday (by simp)
  have hday : utcDay (uploadAfter (uploadAfter oneADay 1000 1).done.world (24 * 60 * 60 * 1000)
      2).before.now = 1 := by decide +kernel
  rw [hday, hcount] at hle
  exact absurd hle (by decide)

end WhisprMedia
