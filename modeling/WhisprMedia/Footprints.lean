import WhisprMedia.MediaService

/-! Which stores each function of the service addresses, and what the commands of each family
leave unchanged. -/
namespace WhisprMedia
open Awaiting

/-- What a command addresses; lookups and writes of rows are told apart. -/
inductive Family where
  | semaphore
  | alerts
  | dedup
  | metadata
  | quotaCache
  | quotaFill
  | mediaLookup
  | mediaList
  | mediaExpiry
  | mediaAcl
  | mediaInsert
  | mediaDelete
  | quotaLookup
  | quotaCharge
  | quotaRelease
  | quotaReset
  | bucket
  | outside
  | draws
  | background
  deriving DecidableEq

def Cmd.family : Cmd → Family
  | .incr _ | .decr _ | .del _ | .expire _ _ => .semaphore
  | .setNxEx _ _ | .publish _ _ => .alerts
  | .getDedup _ | .setDedup _ _ _ => .dedup
  | .getMeta _ | .setMeta _ _ _ | .delMeta _ => .metadata
  | .getQuota _ | .delQuota _ => .quotaCache
  | .setQuota _ _ _ => .quotaFill
  | .findMedia _ _ => .mediaLookup
  | .listMedia _ _ _ => .mediaList
  | .updateSignedUrlExpiry _ _ _ => .mediaExpiry
  | .updateSharedWith _ _ _ => .mediaAcl
  | .saveMedia _ _ => .mediaInsert
  | .softDelete _ _ => .mediaDelete
  | .findQuota _ | .insertQuotaOrIgnore _ => .quotaLookup
  | .chargeQuota _ _ => .quotaCharge
  | .releaseQuota _ _ => .quotaRelease
  | .resetDailyUploads => .quotaReset
  | .putObject _ _ | .deleteObject _ | .getObject _ => .bucket
  | .presign _ _ | .now | .sharpMetadata _ | .sendToClamd _ | .fetchGroupMembers _ => .outside
  | .randomUUID => .draws
  | .spawnQuotaAlert _ => .background

/-- The families that change rows of `media`. -/
def Family.writesMedia : Family → Bool
  | .mediaExpiry | .mediaAcl | .mediaInsert | .mediaDelete => true
  | _ => false

/-- The families that change values of rows of `user_quotas`. -/
def Family.writesQuota : Family → Bool
  | .quotaCharge | .quotaRelease | .quotaReset => true
  | _ => false

/-! Frames -/

/-- What a command of another family leaves as it was. -/
structure Frame (c : Cmd) (w w' : World) : Prop where
  semaphores : c.family ≠ .semaphore → w'.semaphores = w.semaphores
  dedupCache : c.family ≠ .dedup → w'.dedupCache = w.dedupCache
  metaCache : c.family ≠ .metadata → w'.metaCache = w.metaCache
  quotaCache : c.family ≠ .quotaCache → c.family ≠ .quotaFill → w'.quotaCache = w.quotaCache
  media : c.family.writesMedia = false → w'.media = w.media
  quotas : c.family.writesQuota = false → c.family ≠ .quotaLookup → w'.quotas = w.quotas
  bucket : c.family ≠ .bucket → w'.bucket = w.bucket
  lastModified : c.family ≠ .bucket → w'.lastModified = w.lastModified
  now : w'.now = w.now
  drawn : w.drawn ≤ w'.drawn

section Frames
variable {env : Env} {c : Cmd} {w : World}

theorem exec_frame (env : Env) (c : Cmd) (w : World) : Frame c w (env.exec c w).2 := by
  cases c <;> simp only [Env.exec] <;> (repeat' split) <;> constructor <;>
    simp [Cmd.family, Family.writesMedia, Family.writesQuota, World.updateOwned, World.updateQuota]

theorem exec_semaphores (h : c.family ≠ .semaphore) :
    (env.exec c w).2.semaphores = w.semaphores := (exec_frame env c w).semaphores h

theorem exec_dedupCache (h : c.family ≠ .dedup) :
    (env.exec c w).2.dedupCache = w.dedupCache := (exec_frame env c w).dedupCache h

theorem exec_metaCache (h : c.family ≠ .metadata) :
    (env.exec c w).2.metaCache = w.metaCache := (exec_frame env c w).metaCache h

theorem exec_quotaCache (h : c.family ≠ .quotaCache) (hf : c.family ≠ .quotaFill) :
    (env.exec c w).2.quotaCache = w.quotaCache := (exec_frame env c w).quotaCache h hf

theorem exec_media (h : c.family.writesMedia = false) : (env.exec c w).2.media = w.media :=
  (exec_frame env c w).media h

theorem exec_quotas (h : c.family.writesQuota = false) (hl : c.family ≠ .quotaLookup) :
    (env.exec c w).2.quotas = w.quotas := (exec_frame env c w).quotas h hl

theorem exec_bucket (h : c.family ≠ .bucket) : (env.exec c w).2.bucket = w.bucket :=
  (exec_frame env c w).bucket h

theorem exec_lastModified (h : c.family ≠ .bucket) :
    (env.exec c w).2.lastModified = w.lastModified := (exec_frame env c w).lastModified h

theorem exec_now : (env.exec c w).2.now = w.now := (exec_frame env c w).now

theorem drawn_le_exec : w.drawn ≤ (env.exec c w).2.drawn := (exec_frame env c w).drawn

end Frames

/-! Entries of the caches: besides the commands that store them, commands only remove entries -/

theorem of_update_none {α β : Type} [DecidableEq α] {f : α → Option β} {a b : α} {x : β}
    (h : Function.update f a none b = some x) : f b = some x := by
  by_cases hb : b = a
  · rw [hb, Function.update_self] at h
    exact absurd h (by simp)
  · rwa [Function.update_of_ne hb] at h

section Entries
variable {env : Env} {c : Cmd} {w : World} {key : String}

theorem dedupCache_exec (hc : ∀ key id ttl, c ≠ .setDedup key id ttl) :
    (env.exec c w).2.dedupCache = w.dedupCache := by
  by_cases hf : c.family = .dedup
  · cases c <;> simp only [Cmd.family, reduceCtorEq] at hf
    case getDedup key => rfl
    case setDedup key id ttl => exact absurd rfl (hc key id ttl)
  · exact exec_dedupCache hf

theorem metaCache_before_exec (hc : ∀ key e ttl, c ≠ .setMeta key e ttl) {e : CachedMeta}
    (he : (env.exec c w).2.metaCache key = some e) : w.metaCache key = some e := by
  by_cases hf : c.family = .metadata
  · cases c <;> simp only [Cmd.family, reduceCtorEq] at hf
    case getMeta key' => exact he
    case setMeta key' entry ttl => exact absurd rfl (hc key' entry ttl)
    case delMeta key' => exact of_update_none he
  · rwa [exec_metaCache hf] at he

theorem quotaCache_before_exec (hc : c.family ≠ .quotaFill) {e : CachedQuota}
    (he : (env.exec c w).2.quotaCache key = some e) : w.quotaCache key = some e := by
  by_cases hf : c.family = .quotaCache
  · cases c <;> simp only [Cmd.family, reduceCtorEq] at hf
    case getQuota key' => exact he
    case delQuota key' => exact of_update_none he
  · rwa [exec_quotaCache hf hc] at he

end Entries

/-! What happens to the stores besides the commands -/

section Acts
variable {w : World}

theorem act_media (a : Act) (w : World) : (a.apply w).media = w.media := by
  cases a <;> simp only [Act.apply] <;> (try split) <;> rfl

theorem act_quotas (a : Act) (w : World) : (a.apply w).quotas = w.quotas := by
  cases a <;> simp only [Act.apply] <;> (try split) <;> rfl

theorem act_bucket (a : Act) (w : World) : (a.apply w).bucket = w.bucket := by
  cases a <;> simp only [Act.apply] <;> (try split) <;> rfl

theorem act_lastModified (a : Act) (w : World) : (a.apply w).lastModified = w.lastModified := by
  cases a <;> simp only [Act.apply] <;> (try split) <;> rfl

theorem act_drawn (a : Act) (w : World) : (a.apply w).drawn = w.drawn := by
  cases a <;> simp only [Act.apply] <;> (try split) <;> rfl

theorem now_le_act (a : Act) : w.now ≤ (a.apply w).now := by
  cases a with
  | tick ms => exact Int.le_add_of_nonneg_right (Int.natCast_nonneg ms)
  | expireSemaphore key => simp only [Act.apply]; split <;> exact Int.le_refl w.now
  | expireCooldown key => simp only [Act.apply]; split <;> exact Int.le_refl w.now
  | _ => exact Int.le_refl w.now

variable {a : Act} {key : String}

theorem act_dedupCache {id : String} (h : (a.apply w).dedupCache key = some id) :
    w.dedupCache key = some id := by
  cases a with
  | evictDedup key' => exact of_update_none h
  | expireSemaphore key | expireCooldown key =>
    simp only [Act.apply] at h
    split at h <;> exact h
  | _ => exact h

theorem act_metaCache {e : CachedMeta} (h : (a.apply w).metaCache key = some e) :
    w.metaCache key = some e := by
  cases a with
  | evictMeta key' => exact of_update_none h
  | expireSemaphore key | expireCooldown key =>
    simp only [Act.apply] at h
    split at h <;> exact h
  | _ => exact h

theorem act_quotaCache {e : CachedQuota} (h : (a.apply w).quotaCache key = some e) :
    w.quotaCache key = some e := by
  cases a with
  | evictQuota key' => exact of_update_none h
  | expireSemaphore key | expireCooldown key =>
    simp only [Act.apply] at h
    split at h <;> exact h
  | _ => exact h

end Acts

/-! Footprints -/

/-- The function only issues commands of these families. -/
structure Touches {α : Type} (fs : List Family) (x : Svc α) : Prop where
  issues : ProgE.Issues (fun c => c.family ∈ fs) x

section Footprints
variable {α β : Type} {fs gs : List Family}

theorem Touches.mono {x : Svc α} (hx : Touches fs x) (h : ∀ f ∈ fs, f ∈ gs) : Touches gs x :=
  ⟨ProgE.Issues.mono hx.issues fun _ hc => h _ hc⟩

theorem Touches.bind {x : Svc α} {f : α → Svc β} (hx : Touches fs x) (hf : ∀ a, Touches fs (f a)) :
    Touches fs (x >>= f) :=
  ⟨ProgE.Issues.bind hx.issues fun a => (hf a).issues⟩

theorem Touches.tryCatch {x : Svc α} {handle : Err → Svc α} (hx : Touches fs x)
    (hh : ∀ e, Touches fs (handle e)) : Touches fs (tryCatch x handle) :=
  ⟨ProgE.Issues.tryCatch hx.issues fun e => (hh e).issues⟩

theorem touches_pure (a : α) : Touches fs (pure a) := ⟨ProgE.issues_pure a⟩

theorem touches_throw (e : Err) : Touches fs (throw e : Svc α) :=
  ⟨ProgE.issues_throw e⟩

theorem touches_sync (x : Except Err α) : Touches fs (sync x) := ⟨trivial⟩

theorem touches_await {c : Cmd} (h : c.family ∈ fs) : Touches fs (await c) :=
  ⟨⟨h, fun _ => trivial⟩⟩

theorem touches_quietly {c : Cmd} {v : c.Value} (h : c.family ∈ fs) :
    Touches fs (tryCatch (await c) fun _ => pure v) :=
  (touches_await h).tryCatch fun _ => touches_pure v

theorem checkImageDimensions_touches (buffer : Buffer) (mimeType : String) :
    Touches [.outside] (checkImageDimensions buffer mimeType) := by
  unfold checkImageDimensions
  split
  · exact touches_pure ()
  · exact (touches_quietly (by simp [Cmd.family])).bind fun _ => touches_sync _

theorem checkClamAv_touches (env : Env) (buffer : Buffer) :
    Touches [.outside] (checkClamAv env buffer) := by
  unfold checkClamAv
  split
  · exact touches_pure ()
  · refine Touches.tryCatch ?_ fun e => ?_
    · exact (touches_await (by simp [Cmd.family])).bind fun _ => touches_sync _
    · cases e <;> first | exact touches_throw _ | exact touches_pure ()

theorem isAdmin_touches (env : Env) (id : String) :
    Touches [.outside] (GroupService.isAdmin env id) :=
  (touches_sync _).bind fun _ => (touches_await (by simp [Cmd.family])).bind fun _ => touches_sync _

namespace QuotaService

theorem invalidateCache_touches (userId : String) :
    Touches [.quotaCache] (invalidateCache userId) :=
  touches_quietly (by simp [Cmd.family])

theorem findOrInsertRow_touches (userId : String) :
    Touches [.quotaLookup] (findOrInsertRow userId) := by
  refine (touches_await (by simp [Cmd.family])).bind fun r => ?_
  cases r with
  | some row => exact touches_pure row
  | none =>
    refine (touches_await (by simp [Cmd.family])).bind fun _ => (touches_await (by simp [Cmd.family])).bind fun r => ?_
    cases r with
    | some row => exact touches_pure row
    | none => exact touches_throw _

theorem getOrCreateQuota_touches (userId : String) :
    Touches [.quotaCache, .quotaFill, .quotaLookup] (getOrCreateQuota userId) := by
  refine (touches_quietly (by simp [Cmd.family])).bind fun r => ?_
  cases r with
  | some cached => exact touches_sync _
  | none =>
    refine ((findOrInsertRow_touches userId).mono (by decide)).bind fun quota => ?_
    exact (touches_quietly (by simp [Cmd.family])).bind fun _ => touches_pure quota

theorem checkQuota_touches (userId : String) (blobSize : JsNumber) :
    Touches [.quotaCache, .quotaFill, .quotaLookup] (checkQuota userId blobSize) :=
  (touches_sync _).bind fun _ => (getOrCreateQuota_touches userId).bind fun _ => touches_pure _

theorem enforceQuota_touches (userId : String) (blobSize : JsNumber) :
    Touches [.quotaCache, .quotaFill, .quotaLookup] (enforceQuota userId blobSize) :=
  (checkQuota_touches userId blobSize).bind fun _ => touches_sync _

theorem recordUpload_touches (userId : String) (blobSize : JsNumber) :
    Touches [.quotaCharge, .quotaCache, .background] (recordUpload userId blobSize) :=
  (touches_sync _).bind fun _ => (touches_await (by simp [Cmd.family])).bind fun _ =>
    (touches_sync _).bind fun _ => ((invalidateCache_touches userId).mono (by decide)).bind fun _ =>
      touches_await (by simp [Cmd.family])

theorem recordDelete_touches (userId : String) (blobSize : JsNumber) :
    Touches [.quotaRelease, .quotaCache] (recordDelete userId blobSize) :=
  (touches_sync _).bind fun _ => (touches_await (by simp [Cmd.family])).bind fun _ =>
    (touches_sync _).bind fun _ => (invalidateCache_touches userId).mono (by decide)

theorem invalidateAll_touches (userIds : List String) :
    Touches [.quotaCache] (invalidateAll userIds) := by
  induction userIds with
  | nil => exact touches_pure ()
  | cons userId userIds ih => exact (invalidateCache_touches userId).bind fun _ => ih

theorem resetDailyUploads_touches : Touches [.quotaReset, .quotaCache] resetDailyUploads :=
  (touches_await (by simp [Cmd.family])).bind fun userIds => (invalidateAll_touches userIds).mono (by decide)

theorem publishQuotaAlert_touches (userId : String) (storageUsed storageLimit percent : Int) :
    Touches [.alerts] (publishQuotaAlert userId storageUsed storageLimit percent) := by
  refine (touches_await (by simp [Cmd.family])).bind fun acquired => ?_
  split
  · exact touches_await (by simp [Cmd.family])
  · exact touches_pure ()

theorem publishQuotaAlerts_touches (quota : UserQuota) (userId : String) (percentUsed : Int)
    (thresholds : List Int) :
    Touches [.alerts] (publishQuotaAlerts quota userId percentUsed thresholds) := by
  induction thresholds with
  | nil => exact touches_pure ()
  | cons threshold thresholds ih =>
    refine Touches.bind ?_ fun _ => ih
    unfold publishQuotaAlertAt
    split
    · exact publishQuotaAlert_touches _ _ _ _
    · exact touches_pure ()

theorem checkAndPublishQuotaAlert_touches (userId : String) :
    Touches [.quotaCache, .quotaFill, .quotaLookup, .alerts] (checkAndPublishQuotaAlert userId) := by
  refine ((getOrCreateQuota_touches userId).mono (by decide)).bind fun quota => ?_
  split
  · exact touches_pure ()
  · exact (publishQuotaAlerts_touches _ _ _ _).mono (by decide)

end QuotaService

namespace MediaService

theorem acquireSemaphore_touches (userId : String) :
    Touches [.semaphore] (acquireSemaphore userId) := by
  refine (touches_await (by simp [Cmd.family])).bind fun count =>
    (touches_await (by simp [Cmd.family])).bind fun _ => ?_
  split
  · exact (touches_await (by simp [Cmd.family])).bind fun _ => touches_throw _
  · exact touches_pure ()

theorem releaseSemaphore_touches (userId : String) :
    Touches [.semaphore] (releaseSemaphore userId) := by
  refine (touches_await (by simp [Cmd.family])).bind fun remaining => ?_
  split
  · exact touches_await (by simp [Cmd.family])
  · exact touches_pure ()

theorem authorizeGroupIconUpload_touches (env : Env) (context : MediaContext) (ownerId : String) :
    Touches [.outside] (authorizeGroupIconUpload env context ownerId) := by
  unfold authorizeGroupIconUpload
  split
  · exact touches_pure ()
  · refine Touches.bind ?_ fun _ => touches_sync _
    exact (isAdmin_touches env ownerId).tryCatch fun _ => touches_throw _

theorem computeExpiresAt_touches (env : Env) (context : MediaContext) :
    Touches [.outside] (computeExpiresAt env context) := by
  unfold computeExpiresAt
  split
  · exact (touches_await (by simp [Cmd.family])).bind fun _ => touches_pure _
  · exact touches_pure _

theorem generatePresignedUrl_touches (storagePath : String) (expiresIn : Int) :
    Touches [.outside] (generatePresignedUrl storagePath expiresIn) :=
  touches_await (by simp [Cmd.family])

theorem presignTruthy_touches (path : Option String) (expiresIn : Int) :
    Touches [.outside] (presignTruthy path expiresIn) := by
  unfold presignTruthy
  split
  · exact (generatePresignedUrl_touches _ _).bind fun _ => touches_pure _
  · exact touches_pure _

theorem buildUploadResponse_touches (env : Env) (media : Media) :
    Touches [.outside] (buildUploadResponse env media) :=
  (presignTruthy_touches _ _).bind fun _ => (presignTruthy_touches _ _).bind fun _ =>
    (touches_await (by simp [Cmd.family])).bind fun _ => touches_pure _


theorem validateFile_touches (env : Env) (file : File) (context : MediaContext) :
    Touches [.outside] (validateFile env file context) :=
  (touches_sync _).bind fun _ => (touches_sync _).bind fun _ => (touches_sync _).bind fun _ =>
    (checkImageDimensions_touches _ _).bind fun _ => (touches_sync _).bind fun _ =>
      checkClamAv_touches _ _

theorem findDuplicate_touches (ownerId key : String) :
    Touches [.dedup, .mediaLookup] (findDuplicate ownerId key) := by
  refine (touches_await (by simp [Cmd.family])).bind fun existingId => ?_
  split
  · exact touches_await (by simp [Cmd.family])
  · exact touches_pure none

theorem mergeSharedWith_touches (ownerId : String) (existing : Media)
    (sharedWith : Option (List String)) :
    Touches [.mediaAcl, .metadata] (mergeSharedWith ownerId existing sharedWith) := by
  unfold mergeSharedWith
  dsimp only
  split
  · exact (touches_await (by simp [Cmd.family])).bind fun _ =>
      touches_await (by simp [Cmd.family])
  · exact touches_pure ()

theorem storeThumbnail_touches (ownerId id : String) (thumbnailFile : Option File) :
    Touches [.bucket] (storeThumbnail ownerId id thumbnailFile) := by
  cases thumbnailFile with
  | none => exact touches_pure none
  | some file =>
    exact (touches_sync _).bind fun _ => (touches_sync _).bind fun _ =>
      (touches_await (by simp [Cmd.family])).bind fun _ => touches_pure _

theorem deleteStored_touches (storagePath : String) (thumbnailPath : Option String) :
    Touches [.bucket] (deleteStored storagePath thumbnailPath) := by
  refine (touches_quietly (by simp [Cmd.family])).bind fun _ => ?_
  split
  · exact touches_quietly (by simp [Cmd.family])
  · exact touches_pure ()

theorem saveMedia_touches (ownerId : String) (media : Media) :
    Touches [.mediaInsert, .bucket] (saveMedia ownerId media) :=
  (touches_await (by simp [Cmd.family])).tryCatch fun _ =>
    ((deleteStored_touches _ _).mono (by decide)).bind fun _ => touches_throw _

theorem storeNew_touches (env : Env) (ownerId : String) (file : File) (context : MediaContext)
    (thumbnailFile : Option File) (sharedWith : Option (List String)) :
    Touches [.draws, .outside, .bucket, .mediaInsert]
      (storeNew env ownerId file context thumbnailFile sharedWith) :=
  (touches_await (by simp [Cmd.family])).bind fun id => (touches_sync _).bind fun storagePath =>
    (touches_await (by simp [Cmd.family])).bind fun _ =>
      ((storeThumbnail_touches ownerId id thumbnailFile).mono (by decide)).bind fun _ =>
        ((computeExpiresAt_touches env context).mono (by decide)).bind fun _ =>
          ((saveMedia_touches ownerId _).mono (by decide)).bind fun _ => touches_pure _

/-- What is left to do for an upload that has stored its media. -/
theorem afterStore_touches (env : Env) (ownerId : String) (file : File) (key : String)
    (media : Media) :
    Touches [.dedup, .quotaCharge, .quotaCache, .background, .outside] (do
      await (.setDedup key media.id DEDUP_CACHE_TTL_MS)
      QuotaService.recordUpload ownerId (.int file.size)
      buildUploadResponse env media) :=
  (touches_await (by simp [Cmd.family])).bind fun _ =>
    ((QuotaService.recordUpload_touches ownerId _).mono (by decide)).bind fun _ =>
      (buildUploadResponse_touches env media).mono (by decide)

/-- While it holds the semaphore, an upload addresses every store but the semaphore. -/
theorem uploadHeld_touches (env : Env) (ownerId : String) (file : File) (context : MediaContext)
    (thumbnailFile : Option File) (sharedWith : Option (List String)) :
    Touches [.outside, .draws, .quotaCache, .quotaFill, .quotaLookup, .dedup, .mediaLookup,
      .mediaAcl, .metadata, .mediaInsert, .bucket, .quotaCharge, .background]
      (uploadHeld env ownerId file context thumbnailFile sharedWith) := by
  refine ((authorizeGroupIconUpload_touches env context ownerId).mono (by decide)).bind fun _ =>
    ((QuotaService.enforceQuota_touches ownerId _).mono (by decide)).bind fun _ =>
      ((validateFile_touches env file context).mono (by decide)).bind fun _ =>
        ((findDuplicate_touches ownerId _).mono (by decide)).bind fun duplicate => ?_
  cases duplicate with
  | some existing =>
    exact ((mergeSharedWith_touches ownerId existing sharedWith).mono (by decide)).bind fun _ =>
      (buildUploadResponse_touches env existing).mono (by decide)
  | none =>
    exact ((storeNew_touches env ownerId file context thumbnailFile sharedWith).mono
      (by decide)).bind fun media =>
        (afterStore_touches env ownerId file _ media).mono (by decide)

theorem findActive_touches (id requesterId : String) :
    Touches [.mediaLookup] (findActive id requesterId) := by
  refine (touches_await (by simp [Cmd.family])).bind fun r => ?_
  cases r with
  | some media => exact touches_pure media
  | none => exact touches_throw _

theorem findReadable_touches (id requesterId : String) :
    Touches [.mediaLookup] (findReadable id requesterId) :=
  (findActive_touches id requesterId).bind fun _ => (touches_sync _).bind fun _ => touches_pure _

theorem getMetadata_touches (id requesterId : String) :
    Touches [.metadata, .mediaLookup] (getMetadata id requesterId) := by
  refine (touches_await (by simp [Cmd.family])).bind fun r => ?_
  cases r with
  | some cached => exact (touches_sync _).bind fun _ => touches_pure _
  | none =>
    exact ((findReadable_touches id requesterId).mono (by decide)).bind fun _ =>
      (touches_await (by simp [Cmd.family])).bind fun _ => touches_pure _

theorem getOrGenerateSignedUrl_touches (env : Env) (media : Media) (requesterId : String) :
    Touches [.outside, .mediaExpiry] (getOrGenerateSignedUrl env media requesterId) := by
  refine (touches_await (by simp [Cmd.family])).bind fun now => ?_
  split
  · exact ((generatePresignedUrl_touches _ _).mono (by decide)).bind fun _ => touches_pure _
  · exact ((generatePresignedUrl_touches _ _).mono (by decide)).bind fun _ =>
      (touches_await (by simp [Cmd.family])).bind fun _ => touches_pure _

theorem getBlob_touches (env : Env) (id requesterId : String) :
    Touches [.mediaLookup, .outside, .mediaExpiry] (getBlob env id requesterId) :=
  ((findReadable_touches id requesterId).mono (by decide)).bind fun _ =>
    (getOrGenerateSignedUrl_touches _ _ _).mono (by decide)

theorem getThumbnail_touches (env : Env) (id requesterId : String) :
    Touches [.mediaLookup, .outside] (getThumbnail env id requesterId) := by
  refine ((findReadable_touches id requesterId).mono (by decide)).bind fun media => ?_
  split
  · exact touches_pure _
  · exact ((generatePresignedUrl_touches _ _).mono (by decide)).bind fun _ =>
      (touches_await (by simp [Cmd.family])).bind fun _ => touches_pure _

theorem streamBlob_touches (id requesterId : String) :
    Touches [.mediaLookup, .bucket] (streamBlob id requesterId) :=
  ((findReadable_touches id requesterId).mono (by decide)).bind fun _ =>
    (touches_await (by simp [Cmd.family])).bind fun _ => touches_pure _

theorem streamThumbnail_touches (id requesterId : String) :
    Touches [.mediaLookup, .bucket] (streamThumbnail id requesterId) := by
  refine ((findReadable_touches id requesterId).mono (by decide)).bind fun media => ?_
  split
  · exact touches_pure _
  · exact (touches_await (by simp [Cmd.family])).bind fun _ => touches_pure _

theorem getUserQuota_touches (userId : String) : Touches [.quotaLookup] (getUserQuota userId) :=
  (touches_await (by simp [Cmd.family])).bind fun _ => touches_pure _

theorem getUserMedia_touches (userId : String) (page limit : Nat) :
    Touches [.mediaList] (getUserMedia userId page limit) :=
  (touches_await (by simp [Cmd.family])).bind fun _ => touches_pure _

theorem share_touches (id requesterId : String) (userIdsToAdd : List String) :
    Touches [.mediaLookup, .mediaAcl, .metadata] (share id requesterId userIdsToAdd) := by
  refine ((findActive_touches id requesterId).mono (by decide)).bind fun media =>
    (touches_sync _).bind fun _ => ?_
  dsimp only
  split
  · exact touches_pure _
  · exact (touches_await (by simp [Cmd.family])).bind fun _ =>
      (touches_await (by simp [Cmd.family])).bind fun _ => touches_pure _

theorem removeDeleted_touches (id requesterId : String) (media : Media) :
    Touches [.bucket, .metadata, .quotaRelease, .quotaCache]
      (removeDeleted id requesterId media) := by
  have hrest : Touches [.bucket, .metadata, .quotaRelease, .quotaCache] (do
      await (.delMeta (metaKey id))
      QuotaService.recordDelete requesterId (.int media.blobSize)) :=
    (touches_await (by simp [Cmd.family])).bind fun _ =>
      (QuotaService.recordDelete_touches requesterId _).mono (by decide)
  refine (touches_await (by simp [Cmd.family])).bind fun _ => ?_
  split
  · exact (touches_await (by simp [Cmd.family])).bind fun _ => hrest
  · exact hrest

theorem delete_touches (id requesterId : String) :
    Touches [.mediaLookup, .mediaDelete, .bucket, .metadata, .quotaRelease, .quotaCache]
      (delete id requesterId) :=
  ((findActive_touches id requesterId).mono (by decide)).bind fun media =>
    (touches_sync _).bind fun _ => (touches_await (by simp [Cmd.family])).bind fun _ =>
      (removeDeleted_touches id requesterId media).mono (by decide)

theorem upload_touches (env : Env) (ownerId : String) (file : File) (context : MediaContext)
    (thumbnailFile : Option File) (sharedWith : Option (List String)) :
    Touches [.semaphore, .outside, .draws, .quotaCache, .quotaFill, .quotaLookup, .dedup,
      .mediaLookup, .mediaAcl, .metadata, .mediaInsert, .bucket, .quotaCharge, .background]
      (upload env ownerId file context thumbnailFile sharedWith) := by
  have hheld := uploadHeld_touches env ownerId file context thumbnailFile sharedWith
  have hrelease := releaseSemaphore_touches ownerId
  exact ((acquireSemaphore_touches ownerId).mono (by decide)).bind fun _ =>
    ⟨ProgE.Issues.ensuring (hheld.mono (by decide)).issues (hrelease.mono (by decide)).issues⟩

end MediaService

theorem Touches.map {x : Svc α} {f : α → β} (hx : Touches fs x) : Touches fs (f <$> x) :=
  ⟨ProgE.Issues.map hx.issues⟩

/-- What a call addresses. -/
def Call.families : Call → List Family
  | .upload _ _ _ _ _ => [.semaphore, .outside, .draws, .quotaCache, .quotaFill, .quotaLookup, .dedup,
    .mediaLookup, .mediaAcl, .metadata, .mediaInsert, .bucket, .quotaCharge, .background]
  | .share _ _ _ => [.mediaLookup, .mediaAcl, .metadata]
  | .delete _ _ => [.mediaLookup, .mediaDelete, .bucket, .metadata, .quotaRelease, .quotaCache]
  | .getMetadata _ _ => [.metadata, .mediaLookup]
  | .getBlob _ _ => [.mediaLookup, .outside, .mediaExpiry]
  | .getThumbnail _ _ => [.mediaLookup, .outside]
  | .streamBlob _ _ | .streamThumbnail _ _ => [.mediaLookup, .bucket]
  | .getUserQuota _ => [.quotaLookup]
  | .getUserMedia _ _ _ => [.mediaList]
  | .checkQuota _ _ => [.quotaCache, .quotaFill, .quotaLookup]
  | .recordUpload _ _ => [.quotaCharge, .quotaCache, .background]
  | .recordDelete _ _ => [.quotaRelease, .quotaCache]
  | .resetDailyUploads => [.quotaReset, .quotaCache]
  | .checkAndPublishQuotaAlert _ => [.quotaCache, .quotaFill, .quotaLookup, .alerts]

theorem handle_families (env : Env) (x : Call) : Touches x.families (handle env x) := by
  cases x with
  | upload o f c t s => exact (MediaService.upload_touches env o f c t s).map
  | share id r uids => exact (MediaService.share_touches id r uids).map
  | delete id r => exact (MediaService.delete_touches id r).map
  | getMetadata id r => exact (MediaService.getMetadata_touches id r).map
  | getBlob id r => exact (MediaService.getBlob_touches env id r).map
  | getThumbnail id r => exact (MediaService.getThumbnail_touches env id r).map
  | streamBlob id r => exact (MediaService.streamBlob_touches id r).map
  | streamThumbnail id r => exact (MediaService.streamThumbnail_touches id r).map
  | getUserQuota u => exact (MediaService.getUserQuota_touches u).map
  | getUserMedia u page limit => exact (MediaService.getUserMedia_touches u page limit).map
  | checkQuota u n => exact (QuotaService.checkQuota_touches u n).map
  | recordUpload u n => exact (QuotaService.recordUpload_touches u n).map
  | recordDelete u n => exact (QuotaService.recordDelete_touches u n).map
  | resetDailyUploads => exact QuotaService.resetDailyUploads_touches.map
  | checkAndPublishQuotaAlert u => exact (QuotaService.checkAndPublishQuotaAlert_touches u).map

/-- The calls that change the values of a quota row. -/
def Call.writesQuota : Call → Bool
  | .upload _ _ _ _ _ | .delete _ _ | .recordUpload _ _ | .recordDelete _ _
  | .resetDailyUploads => true
  | _ => false

/-- The user whose quota a call is about. -/
def Call.quotaUser? : Call → Option String
  | .upload ownerId _ _ _ _ => some ownerId
  | .delete _ requesterId => some requesterId
  | .getUserQuota userId | .checkQuota userId _ | .recordUpload userId _ | .recordDelete userId _
  | .checkAndPublishQuotaAlert userId => some userId
  | _ => none

/-- The calls that address quotas. -/
def Call.usesQuota : Call → Bool
  | .share _ _ _ | .getMetadata _ _ | .getBlob _ _ | .getThumbnail _ _ | .streamBlob _ _
  | .streamThumbnail _ _ | .getUserMedia _ _ _ => false
  | _ => true

theorem handle_touches_of_not_usesQuota (env : Env) {x : Call} (hx : x.usesQuota = false) :
    Touches [.metadata, .mediaLookup, .mediaList, .mediaExpiry, .mediaAcl, .bucket, .outside]
      (handle env x) := by
  cases x <;> simp only [Call.usesQuota, Bool.true_eq_false] at hx
  all_goals exact (handle_families env _).mono (by simp [Call.families])

theorem handle_touches_of_not_writesQuota (env : Env) {x : Call} (hx : x.writesQuota = false) :
    Touches [.alerts, .metadata, .quotaCache, .quotaFill, .mediaLookup, .mediaList, .mediaExpiry,
      .mediaAcl, .quotaLookup, .bucket, .outside] (handle env x) := by
  cases x <;> simp only [Call.writesQuota, Bool.true_eq_false] at hx
  all_goals exact (handle_families env _).mono (by simp [Call.families])

/-- Only uploads address the semaphore. -/
theorem handle_touches (env : Env) (x : Call)
    (hx : ∀ ownerId file context thumbnailFile sharedWith,
      x ≠ .upload ownerId file context thumbnailFile sharedWith) :
    Touches [.alerts, .metadata, .quotaCache, .quotaFill, .mediaLookup, .mediaList, .mediaExpiry,
      .mediaAcl, .quotaLookup, .bucket, .outside, .mediaDelete, .quotaCharge, .quotaRelease,
      .quotaReset, .background] (handle env x) := by
  cases x with
  | upload o f c t s => exact absurd rfl (hx o f c t s)
  | _ => exact (handle_families env _).mono (by simp [Call.families])

end Footprints

end WhisprMedia
