import WhisprMedia.ServiceRules

/-! The errors that the parts of an upload can throw. 429 is the semaphore's, and an exceeded
quota is reported by the check of the quota alone. -/
namespace WhisprMedia
open Awaiting MediaService QuotaService

/-- Neither 429 nor an exceeded quota. -/
def Err.Ordinary : Err → Prop
  | .tooManyRequests _ | .quotaExceeded _ => False
  | _ => True

theorem Err.Ordinary.status {e : Err} (h : e.Ordinary) : e.status ≠ 429 := by
  cases e <;> first
    | exact h.elim
    | simp [Err.status]

theorem Err.Ordinary.ne {e : Err} (h : e.Ordinary) (r : QuotaCheckResult) :
    e ≠ .quotaExceeded r := by
  rintro rfl
  exact h

section Errors
variable {α : Type} {env : Env}

/-- Every error of the program is ordinary. -/
abbrev Ordinary (x : Svc α) : Prop := x.Throws Err.Ordinary

theorem ordinary_await {c : Cmd} : Ordinary (await c) := by
  refine ProgE.throws_issue fun r e h => ?_
  cases r with
  | ok v => simp [Except.mapError] at h
  | error msg =>
    obtain rfl := Except.error.inj h
    simp [Err.Ordinary]

theorem ordinary_sync {x : Except Err α} (h : ∀ e, x = .error e → e.Ordinary) :
    Ordinary (sync x) := by
  intro log e hf
  exact h e (Prog.pure.inj (Prog.Follows.of_pure hf).2).symm

theorem ordinary_throwIf {b : Bool} {err : Err} (h : err.Ordinary) :
    Ordinary (sync (throwIf b err)) :=
  ordinary_sync fun _ he => throwIf_error he ▸ h

theorem ordinary_pure (a : α) : Ordinary (pure a : Svc α) := ProgE.throws_pure a

theorem buildPath_error {c : StorageContext} {o i : String} {e : Err}
    (h : StorageService.buildPath c o i = .error e) : e.Ordinary := by
  unfold StorageService.buildPath at h
  split at h
  · obtain rfl := Except.error.inj h
    simp [Err.Ordinary]
  · split at h
    · obtain rfl := Except.error.inj h
      simp [Err.Ordinary]
    · cases c <;> simp at h

theorem validateMagicBytes_error {buffer : Buffer} {mime : String} {e : Err}
    (h : validateMagicBytes buffer mime = .error e) : e.Ordinary := by
  unfold validateMagicBytes at h
  dsimp only at h
  split at h
  · split at h
    · obtain rfl := Except.error.inj h
      simp [Err.Ordinary]
    · simp at h
  · split at h
    · simp at h
    · obtain rfl := Except.error.inj h
      simp [Err.Ordinary]

theorem validateThumbnail_error {file : File} {e : Err}
    (h : validateThumbnail file = .error e) : e.Ordinary := by
  rcases bind_eq_error h with h | ⟨_, -, h⟩
  · exact validateMagicBytes_error h
  · rcases bind_eq_error h with h | ⟨_, -, h⟩ <;>
      (rw [throwIf_error h]; simp [Err.Ordinary])

theorem ofCached_error {cached : CachedQuota} {e : Err} (h : ofCached cached = .error e) :
    e.Ordinary := by
  have hbig {text : String} (hb : BigInt text = .error e) : e.Ordinary := by
    unfold BigInt at hb
    split at hb
    · simp at hb
    · obtain rfl := Except.error.inj hb
      simp [Err.Ordinary]
  rcases bind_eq_error h with h | ⟨_, -, h⟩
  · exact hbig h
  · rcases bind_eq_error h with h | ⟨_, -, h⟩
    · exact hbig h
    · exact absurd h (by rintro ⟨⟩)

theorem authorizeGroupIconUpload_ordinary (context : MediaContext) (ownerId : String) :
    Ordinary (authorizeGroupIconUpload env context ownerId) := by
  unfold authorizeGroupIconUpload
  split
  · exact ordinary_pure ()
  · refine ProgE.Throws.bind (ProgE.Throws.tryCatch fun _ => ?_) fun isAdmin => ?_
    · exact ProgE.throws_throw (by simp [Err.Ordinary])
    · exact ordinary_throwIf (by simp [Err.Ordinary])

theorem findOrInsertRow_ordinary (userId : String) : Ordinary (findOrInsertRow userId) := by
  refine ProgE.Throws.bind ordinary_await fun r => ?_
  cases r with
  | some row => exact ordinary_pure row
  | none =>
    refine ProgE.Throws.bind ordinary_await fun _ => ProgE.Throws.bind ordinary_await fun r => ?_
    cases r with
    | some row => exact ordinary_pure row
    | none => exact ProgE.throws_throw (by simp [Err.Ordinary])

theorem getOrCreateQuota_ordinary (userId : String) : Ordinary (getOrCreateQuota userId) := by
  refine ProgE.Throws.bind (ProgE.Throws.tryCatch fun _ => ordinary_pure none) fun r => ?_
  cases r with
  | some cached => exact ordinary_sync fun _ h => ofCached_error h
  | none =>
    exact ProgE.Throws.bind (findOrInsertRow_ordinary userId) fun quota =>
      ProgE.Throws.bind (ProgE.Throws.tryCatch fun _ => ordinary_pure ()) fun _ =>
        ordinary_pure quota

/-- A check of the quota may also find it exceeded. -/
theorem enforceQuota_error (userId : String) (n : JsNumber) :
    (enforceQuota userId n).Throws fun e => e.Ordinary ∨ ∃ r, e = .quotaExceeded r := by
  refine ProgE.Throws.bind (ProgE.Throws.mono ?_ fun _ => Or.inl) fun result => ?_
  · refine ProgE.Throws.bind (ordinary_throwIf (by simp [Err.Ordinary])) fun _ => ?_
    exact ProgE.Throws.bind (getOrCreateQuota_ordinary userId) fun _ => ordinary_pure _
  · intro log e h
    have he := (Prog.pure.inj (Prog.Follows.of_pure h).2).symm
    exact Or.inr ⟨result, throwIf_error he⟩

theorem checkClamAv_ordinary (buffer : Buffer) : Ordinary (checkClamAv env buffer) := by
  unfold checkClamAv
  split
  · exact ordinary_pure ()
  · refine ProgE.Throws.tryCatch fun e => ?_
    cases e <;> first
      | exact ordinary_pure ()
      | exact ProgE.throws_throw (by simp [Err.Ordinary])

theorem checkImageDimensions_ordinary (buffer : Buffer) (mime : String) :
    Ordinary (checkImageDimensions buffer mime) := by
  unfold checkImageDimensions
  split
  · exact ordinary_pure ()
  · refine ProgE.Throws.bind (ProgE.Throws.tryCatch fun _ => ordinary_pure _) fun metadata =>
      ordinary_sync fun e h => ?_
    unfold enforceMaxPixels at h
    split at h
    · rw [throwIf_error h]
      simp [Err.Ordinary]
    · simp at h

theorem validateFile_ordinary (file : File) (context : MediaContext) :
    Ordinary (validateFile env file context) := by
  refine ProgE.Throws.bind (ordinary_throwIf (by simp [Err.Ordinary])) fun _ =>
    ProgE.Throws.bind (ordinary_sync fun _ h => validateMagicBytes_error h) fun _ =>
    ProgE.Throws.bind (ordinary_throwIf (by simp [Err.Ordinary])) fun _ =>
    ProgE.Throws.bind (checkImageDimensions_ordinary _ _) fun _ =>
    ProgE.Throws.bind (ordinary_sync fun e h => ?_) fun _ => checkClamAv_ordinary _
  unfold checkPdfJavaScript at h
  split at h
  · simp at h
  · rw [throwIf_error h]
    simp [Err.Ordinary]

theorem storeThumbnail_ordinary (ownerId id : String) (thumbnailFile : Option File) :
    Ordinary (storeThumbnail ownerId id thumbnailFile) := by
  cases thumbnailFile with
  | none => exact ordinary_pure none
  | some file =>
    exact ProgE.Throws.bind (ordinary_sync fun _ h => validateThumbnail_error h) fun _ =>
      ProgE.Throws.bind (ordinary_sync fun _ h => buildPath_error h) fun _ =>
        ProgE.Throws.bind ordinary_await fun _ => ordinary_pure _

theorem saveMedia_ordinary (ownerId : String) (media : Media) :
    Ordinary (MediaService.saveMedia ownerId media) := by
  -- the clean-up throws again what the INSERT threw
  intro log e h
  unfold MediaService.saveMedia at h
  rw [ProgE.run_tryCatch_eq] at h
  obtain ⟨l₁, r, l₂, -, h₁, h₂⟩ := h.of_bind
  cases r with
  | ok a => cases h₂
  | error dbErr =>
    have hdb := ordinary_await l₁ dbErr h₁
    refine (?_ : Ordinary (do
      deleteStored media.storagePath media.thumbnailPath
      throw dbErr : Svc Unit)) l₂ e h₂
    refine ProgE.Throws.bind ?_ fun _ => ProgE.throws_throw hdb
    refine ProgE.Throws.bind (ProgE.Throws.tryCatch fun _ => ordinary_pure ()) fun _ => ?_
    split
    · exact ProgE.Throws.tryCatch fun _ => ordinary_pure ()
    · exact ordinary_pure ()

theorem storeNew_ordinary (ownerId : String) (file : File) (context : MediaContext)
    (thumbnailFile : Option File) (sharedWith : Option (List String)) :
    Ordinary (storeNew env ownerId file context thumbnailFile sharedWith) := by
  refine ProgE.Throws.bind ordinary_await fun id =>
    ProgE.Throws.bind (ordinary_sync fun _ h => buildPath_error h) fun path =>
    ProgE.Throws.bind ordinary_await fun _ =>
    ProgE.Throws.bind (storeThumbnail_ordinary _ _ _) fun thumbnailPath =>
    ProgE.Throws.bind ?_ fun expiresAt =>
    ProgE.Throws.bind (saveMedia_ordinary _ _) fun _ => ordinary_pure _
  unfold computeExpiresAt
  split
  · exact ProgE.Throws.bind ordinary_await fun _ => ordinary_pure _
  · exact ordinary_pure _

theorem buildUploadResponse_ordinary (media : Media) :
    Ordinary (buildUploadResponse env media) := by
  have hpresign (path : Option String) (expiresIn : Int) :
      Ordinary (presignTruthy path expiresIn) := by
    unfold presignTruthy
    split
    · exact ProgE.Throws.bind ordinary_await fun _ => ordinary_pure _
    · exact ordinary_pure none
  exact ProgE.Throws.bind (hpresign _ _) fun _ => ProgE.Throws.bind (hpresign _ _) fun _ =>
    ProgE.Throws.bind ordinary_await fun _ => ordinary_pure _

/-- The semaphore is not about the quota. -/
theorem acquireSemaphore_error (userId : String) :
    (acquireSemaphore userId).Throws fun e => ∀ r, e ≠ .quotaExceeded r := by
  have hord {α : Type} {x : Svc α} (hx : Ordinary x) :
      x.Throws fun e => ∀ r, e ≠ .quotaExceeded r :=
    hx.mono fun _ he => he.ne
  refine ProgE.Throws.bind (hord ordinary_await) fun count =>
    ProgE.Throws.bind (hord ordinary_await) fun _ => ?_
  split
  · exact ProgE.Throws.bind (hord ordinary_await) fun _ => ProgE.throws_throw (by simp)
  · exact hord (ordinary_pure ())

theorem findDuplicate_ordinary (ownerId key : String) : Ordinary (findDuplicate ownerId key) := by
  refine ProgE.Throws.bind ordinary_await fun existingId => ?_
  split
  · exact ordinary_await
  · exact ordinary_pure none

theorem mergeSharedWith_ordinary (ownerId : String) (existing : Media)
    (sharedWith : Option (List String)) : Ordinary (mergeSharedWith ownerId existing sharedWith) := by
  unfold mergeSharedWith
  dsimp only
  split
  · exact ProgE.Throws.bind ordinary_await fun _ => ordinary_await
  · exact ordinary_pure ()

theorem recordUpload_ordinary (userId : String) (n : JsNumber) :
    Ordinary (recordUpload userId n) :=
  ProgE.Throws.bind (ordinary_throwIf (by simp [Err.Ordinary])) fun _ =>
    ProgE.Throws.bind ordinary_await fun _ =>
    ProgE.Throws.bind (ordinary_throwIf (by simp [Err.Ordinary])) fun _ =>
    ProgE.Throws.bind (ProgE.Throws.tryCatch fun _ => ordinary_pure ()) fun _ => ordinary_await

theorem releaseSemaphore_ordinary (userId : String) : Ordinary (releaseSemaphore userId) := by
  refine ProgE.Throws.bind ordinary_await fun remaining => ?_
  split
  · exact ordinary_await
  · exact ordinary_pure ()

end Errors

end WhisprMedia
