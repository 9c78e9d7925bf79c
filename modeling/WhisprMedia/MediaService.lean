import WhisprMedia.QuotaService

/-! Uploads, reads, shares and deletes of media. Logs, metrics, the access log and the events
`media.uploaded` and `media.deleted` are left out: nothing awaits them and nothing reads them. -/
namespace WhisprMedia
open Awaiting

/-! Sets of strings in the order of their insertion -/

def setAdd (s : List String) (x : String) : List String := if s.contains x then s else s ++ [x]

/-- `new Set(xs)`. -/
def newSet (xs : List String) : List String := xs.foldl setAdd []

/-- The ids of a list that are not empty and not the owner's. -/
def otherUsers (ownerId : String) (uids : List String) : List String :=
  uids.filter fun uid => uid ≠ "" && uid ≠ ownerId

/-- `new Set(sharedWith ?? [])` and an `add` of every other user. -/
def mergeUsers (ownerId : String) (sharedWith : Option (List String)) (uids : List String) :
    List String :=
  (otherUsers ownerId uids).foldl setAdd (newSet (sharedWith.getD []))

/-- The ACL of a new row. -/
def initialSharedWith (ownerId : String) (sharedWith : Option (List String)) :
    Option (List String) :=
  match sharedWith with
  | none => none
  | some uids =>
    let dedup := newSet (otherUsers ownerId uids)
    if dedup.isEmpty then none else some dedup

/-- A path is used when it is neither null nor empty. -/
def truthy (path : Option String) : Option String := path.filter fun p => p ≠ ""

namespace MediaService

def semaphoreKey (userId : String) : String := s!"upload:semaphore:{userId}"

theorem semaphoreKey_injective {a b : String} (h : semaphoreKey a = semaphoreKey b) : a = b :=
  (String.append_right_inj _).mp h

def metaKey (id : String) : String := s!"media:meta:{id}"

theorem metaKey_injective {a b : String} (h : metaKey a = metaKey b) : a = b :=
  (String.append_right_inj _).mp h

def hex (digest : List (Fin 16)) : String :=
  String.ofList (digest.map fun d => Nat.digitChar d.val)

def dedupKey (ownerId : String) (context : MediaContext) (sha256 : List (Fin 16)) : String :=
  s!"dedup:blob:{ownerId}:{context.value}:{hex sha256}"

def enforceReadAccess (context ownerId : String) (sharedWith : Option (List String))
    (requesterId : String) : Except Err Unit :=
  if PUBLIC_READABLE_CONTEXTS.contains context then .ok ()
  else if ownerId = requesterId then .ok ()
  else if (sharedWith.getD []).contains requesterId then .ok ()
  else .error (.forbidden "Access denied")

theorem enforceReadAccess_iff {context ownerId u : String} {sharedWith : Option (List String)} :
    enforceReadAccess context ownerId sharedWith u = .ok () ↔
      context ∈ PUBLIC_READABLE_CONTEXTS ∨ ownerId = u ∨ u ∈ sharedWith.getD [] := by
  unfold enforceReadAccess
  by_cases hc : context ∈ PUBLIC_READABLE_CONTEXTS
  · simp [hc]
  · by_cases ho : ownerId = u
    · simp [hc, ho]
    · by_cases hs : u ∈ sharedWith.getD [] <;> simp [hc, ho, hs]

def enforceContextSizeLimit (size : Nat) (context : MediaContext) : Except Err Unit :=
  throwIf (size > CONTEXT_SIZE_LIMITS context) (.payloadTooLarge <|
    s!"File size {size} exceeds the {CONTEXT_SIZE_LIMITS context} byte limit for context " ++
      s!"'{context.value}'")

def enforceMime (mimetype : String) (context : MediaContext) : Except Err Unit :=
  throwIf (!(CONTEXT_MIME_ALLOWLIST context).contains mimetype) (.unsupportedMediaType
    s!"MIME type '{mimetype}' is not allowed for context '{context.value}'")

def notFound (id : String) : Err := .notFound s!"Media {id} not found"

def enforceOwner (media : Media) (id requesterId : String) : Except Err Unit :=
  throwIf (media.ownerId ≠ requesterId) (.forbidden s!"You do not own media {id}")

/-! The semaphore -/

def acquireSemaphore (userId : String) : Svc Unit := do
  let count : Int ← await (.incr (semaphoreKey userId))
  await (.expire (semaphoreKey userId) SEMAPHORE_TTL_SECONDS)
  if count > MAX_CONCURRENT_UPLOADS then do
    let _ ← await (.decr (semaphoreKey userId))
    throw (.tooManyRequests
      s!"You have reached the maximum of {MAX_CONCURRENT_UPLOADS} concurrent uploads")
  else pure ()

def releaseSemaphore (userId : String) : Svc Unit := do
  let remaining : Int ← await (.decr (semaphoreKey userId))
  if remaining ≤ 0 then await (.del (semaphoreKey userId)) else pure ()

/-! Uploads -/

def authorizeGroupIconUpload (env : Env) (context : MediaContext) (ownerId : String) : Svc Unit :=
  if context ≠ .GROUP_ICON then pure ()
  else do
    let isAdmin ← tryCatch (GroupService.isAdmin env ownerId) fun _ =>
      throw (.serviceUnavailable "Group authorization service unavailable")
    sync (throwIf (!isAdmin) (.forbidden "You are not allowed to upload an icon for this group"))

def contextToStorageContext : MediaContext → StorageContext
  | .AVATAR => .avatars
  | .GROUP_ICON => .group_icons
  | .MESSAGE => .messages

def computeExpiresAt (env : Env) (context : MediaContext) : Svc (Option Int) :=
  if context = .MESSAGE then do
    let now : Int ← await .now
    pure (some (now + env.MESSAGE_BLOB_TTL_DAYS * 24 * 60 * 60 * 1000))
  else pure none

def generatePresignedUrl (storagePath : String) (expiresIn : Int) : Svc SignedUrl :=
  await (.presign storagePath expiresIn)

/-- `path ? await generatePresignedUrl(path, expiresIn) : null`. -/
def presignTruthy (path : Option String) (expiresIn : Int) : Svc (Option SignedUrl) :=
  match truthy path with
  | some p => do
    let url ← generatePresignedUrl p expiresIn
    pure (some url)
  | none => pure none

def buildUploadResponse (env : Env) (media : Media) : Svc UploadMediaResponseDto := do
  let url ← presignTruthy (some media.storagePath) env.SIGNED_URL_EXPIRY_SECONDS
  let thumbnail_url ← presignTruthy media.thumbnailPath env.SIGNED_URL_EXPIRY_SECONDS
  let now : Int ← await .now
  pure {
    media_id := media.id
    url := url
    thumbnail_url := thumbnail_url
    expires_at := now + env.SIGNED_URL_EXPIRY_SECONDS * 1000
    context := media.context
    size := media.blobSize }

/-- `file.buffer ?? Buffer.alloc(0)`. -/
def fileBuffer (file : File) : Buffer := file.buffer.getD []

/-- The object that is put for a file: its stream, or else its buffer. -/
def fileObject (file : File) : StoredObject where
  body := file.stream.getD (fileBuffer file)
  contentType := file.mimetype
  contentLength := file.size

/-- What `upload` checks of the file after the quota. -/
def validateFile (env : Env) (file : File) (context : MediaContext) : Svc Unit := do
  sync (enforceContextSizeLimit file.size context)
  sync (validateMagicBytes (fileBuffer file) file.mimetype)
  sync (enforceMime file.mimetype context)
  checkImageDimensions (fileBuffer file) file.mimetype
  sync (checkPdfJavaScript (fileBuffer file) file.mimetype)
  checkClamAv env (fileBuffer file)

/-- The active row that the dedup entry points to, if there is one. -/
def findDuplicate (ownerId key : String) : Svc (Option Media) := do
  let existingId ← await (.getDedup key)
  match truthy existingId with
  | some id => await (.findMedia ownerId id)
  | none => pure none

/-- On a dedup hit the ACLs are united; the length tells whether anything was added. -/
def mergeSharedWith (ownerId : String) (existing : Media) (sharedWith : Option (List String)) :
    Svc Unit :=
  let uids := sharedWith.getD []
  let next := mergeUsers existing.ownerId existing.sharedWith uids
  if !uids.isEmpty && next.length ≠ (existing.sharedWith.getD []).length then do
    await (.updateSharedWith ownerId existing.id (some next))
    await (.delMeta (metaKey existing.id))
  else pure ()

/-- What `upload` checks of the thumbnail. -/
def validateThumbnail (thumbnailFile : File) : Except Err Unit := do
  validateMagicBytes (fileBuffer thumbnailFile) thumbnailFile.mimetype
  throwIf (!THUMBNAIL_ALLOWED_MIME.contains thumbnailFile.mimetype) (.unsupportedMediaType
    s!"Thumbnail MIME type '{thumbnailFile.mimetype}' is not allowed")
  throwIf (thumbnailFile.size > THUMBNAIL_MAX_BYTES) (.payloadTooLarge
    s!"Thumbnail size {thumbnailFile.size} exceeds the 5 MB limit")

def storeThumbnail (ownerId id : String) : Option File → Svc (Option String)
  | none => pure none
  | some thumbnailFile => do
    sync (validateThumbnail thumbnailFile)
    let thumbnailStoragePath ← sync (StorageService.buildPath .thumbnails ownerId id)
    await (.putObject thumbnailStoragePath (fileObject thumbnailFile))
    pure (some thumbnailStoragePath)

/-- `storageService.delete(path).catch(…)`. -/
def deleteQuietly (path : String) : Svc Unit :=
  tryCatch (await (.deleteObject path)) fun _ => pure ()

/-- The clean-up after a failed insert. -/
def deleteStored (storagePath : String) (thumbnailPath : Option String) : Svc Unit := do
  deleteQuietly storagePath
  match truthy thumbnailPath with
  | some path => deleteQuietly path
  | none => pure ()

/-- Insert the row, or remove the objects that were stored for it. -/
def saveMedia (ownerId : String) (media : Media) : Svc Unit :=
  tryCatch (await (.saveMedia ownerId media)) fun dbErr => do
    deleteStored media.storagePath media.thumbnailPath
    throw dbErr

/-- The row of a new upload; `createdAt` and `signedUrlExpiresAt` are the database's. -/
def newMedia (id ownerId : String) (file : File) (context : MediaContext) (storagePath : String)
    (thumbnailPath : Option String) (expiresAt : Option Int) (sharedWith : Option (List String)) :
    Media where
  id := id
  ownerId := ownerId
  context := context.value
  storagePath := storagePath
  thumbnailPath := thumbnailPath
  contentType := file.mimetype
  blobSize := file.size
  expiresAt := expiresAt
  signedUrlExpiresAt := none
  isActive := true
  sharedWith := initialSharedWith ownerId sharedWith
  createdAt := 0

/-- Store the objects of a new upload and insert its row. -/
def storeNew (env : Env) (ownerId : String) (file : File) (context : MediaContext)
    (thumbnailFile : Option File) (sharedWith : Option (List String)) : Svc Media := do
  let id ← await .randomUUID
  let storagePath ←
    sync (StorageService.buildPath (contextToStorageContext context) ownerId id)
  await (.putObject storagePath (fileObject file))
  let thumbnailPath ← storeThumbnail ownerId id thumbnailFile
  let expiresAt ← computeExpiresAt env context
  let media := newMedia id ownerId file context storagePath thumbnailPath expiresAt sharedWith
  saveMedia ownerId media
  pure media

/-- The part of `upload` that runs while it holds the semaphore. -/
def uploadHeld (env : Env) (ownerId : String) (file : File) (context : MediaContext)
    (thumbnailFile : Option File) (sharedWith : Option (List String)) :
    Svc UploadMediaResponseDto := do
  authorizeGroupIconUpload env context ownerId
  QuotaService.enforceQuota ownerId (.int file.size)
  validateFile env file context
  let key := dedupKey ownerId context (env.sha256 (fileBuffer file))
  match ← findDuplicate ownerId key with
  | some existing => do
    mergeSharedWith ownerId existing sharedWith
    buildUploadResponse env existing
  | none => do
    let media ← storeNew env ownerId file context thumbnailFile sharedWith
    await (.setDedup key media.id DEDUP_CACHE_TTL_MS)
    QuotaService.recordUpload ownerId (.int file.size)
    buildUploadResponse env media

def upload (env : Env) (ownerId : String) (file : File) (context : MediaContext)
    (thumbnailFile : Option File) (sharedWith : Option (List String)) :
    Svc UploadMediaResponseDto := do
  acquireSemaphore ownerId
  ProgE.ensuring (uploadHeld env ownerId file context thumbnailFile sharedWith)
    (releaseSemaphore ownerId)

/-! Reads -/

/-- `findById`, or 404. -/
def findActive (id requesterId : String) : Svc Media := do
  match ← await (.findMedia requesterId id) with
  | some media => pure media
  | none => throw (notFound id)

/-- `findById`, or 404, and then the access check, or 403. -/
def findReadable (id requesterId : String) : Svc Media := do
  let media ← findActive id requesterId
  sync (enforceReadAccess media.context media.ownerId media.sharedWith requesterId)
  pure media

def toMetadataDto (media : Media) : MediaMetadataDto where
  id := media.id
  ownerId := media.ownerId
  context := media.context
  contentType := media.contentType
  blobSize := media.blobSize
  expiresAt := media.expiresAt
  isActive := media.isActive
  createdAt := media.createdAt
  hasThumbnail := media.thumbnailPath.isSome

def getMetadata (id requesterId : String) : Svc MediaMetadataDto := do
  match ← await (.getMeta (metaKey id)) with
  | some cached => do
    sync (enforceReadAccess cached.dto.context cached.dto.ownerId cached.sharedWith requesterId)
    pure cached.dto
  | none => do
    let media ← findReadable id requesterId
    await (.setMeta (metaKey id) ⟨toMetadataDto media, media.sharedWith⟩ META_CACHE_TTL_MS)
    pure (toMetadataDto media)

/-- The expiry that a row still keeps for its URL. -/
def unexpired (media : Media) (now : Int) : Option Int :=
  media.signedUrlExpiresAt.filter fun expiresAt => expiresAt > now

def getOrGenerateSignedUrl (env : Env) (media : Media) (requesterId : String) :
    Svc BlobUrlResponseDto := do
  let now : Int ← await .now
  match unexpired media now with
  | some expiresAt => do
    let url ← generatePresignedUrl media.storagePath (max 1 ((expiresAt - now) / 1000))
    pure ⟨url, expiresAt⟩
  | none => do
    let expiresAt := now + env.SIGNED_URL_EXPIRY_SECONDS * 1000
    let url ← generatePresignedUrl media.storagePath env.SIGNED_URL_EXPIRY_SECONDS
    await (.updateSignedUrlExpiry requesterId media.id expiresAt)
    pure ⟨url, expiresAt⟩

def getBlob (env : Env) (id requesterId : String) : Svc BlobUrlResponseDto := do
  let media ← findReadable id requesterId
  getOrGenerateSignedUrl env media requesterId

def getThumbnail (env : Env) (id requesterId : String) : Svc ThumbnailUrlResponseDto := do
  let media ← findReadable id requesterId
  match truthy media.thumbnailPath with
  | none => pure ⟨none, none⟩
  | some path => do
    let url ← generatePresignedUrl path env.SIGNED_URL_EXPIRY_SECONDS
    let now : Int ← await .now
    pure ⟨some url, some (now + env.SIGNED_URL_EXPIRY_SECONDS * 1000)⟩

def streamBlob (id requesterId : String) : Svc StreamableFile := do
  let media ← findReadable id requesterId
  let bodyStream ← await (.getObject media.storagePath)
  pure ⟨bodyStream, media.contentType, some media.blobSize⟩

def streamThumbnail (id requesterId : String) : Svc (Option StreamableFile) := do
  let media ← findReadable id requesterId
  match truthy media.thumbnailPath with
  | none => pure none
  | some path => do
    let bodyStream ← await (.getObject path)
    pure (some ⟨bodyStream, "image/*", none⟩)

/-- `Number(n)`, with the largest safe integer for what lies above it. -/
def clampSafe (n : Int) : Int := if n > MAX_SAFE_INTEGER then MAX_SAFE_INTEGER else n

/-- The share of the limit that is used, in hundredths of a percent. -/
def usagePercent (storageUsed storageLimit : Int) : Int :=
  if storageLimit > 0 then min 10000 (max 0 ((storageUsed * 10000).tdiv storageLimit)) else 0

def toUserQuotaDto (quota : Option UserQuota) : UserQuotaResponseDto :=
  let rawStorageUsed := (quota.map (·.storageUsed)).getD 0
  let rawStorageLimit := (quota.map (·.storageLimit)).getD DEFAULT_STORAGE_LIMIT_BYTES
  { storageUsed := clampSafe rawStorageUsed
    storageLimit := clampSafe rawStorageLimit
    filesCount := (quota.map (·.filesCount)).getD 0
    filesLimit := (quota.map (·.filesLimit)).getD DEFAULT_FILES_LIMIT
    dailyUploads := (quota.map (·.dailyUploads)).getD 0
    dailyUploadLimit := (quota.map (·.dailyUploadLimit)).getD DEFAULT_DAILY_UPLOAD_LIMIT
    quotaDate := quota.map (·.quotaDate)
    usagePercent := usagePercent rawStorageUsed rawStorageLimit }

def getUserQuota (userId : String) : Svc UserQuotaResponseDto := do
  let quota ← await (.findQuota userId)
  pure (toUserQuotaDto quota)

def toMediaItem (m : Media) : MediaItemDto := ⟨m.id, m.contentType, m.blobSize, m.context, m.createdAt⟩

/-- `Math.ceil(total / limit)`, for the limits that the controller passes. -/
def totalPages (total limit : Nat) : Nat := (total + limit - 1) / limit

def getUserMedia (userId : String) (page limit : Nat) : Svc PaginatedMediaResponseDto := do
  let (items, total) ← await (.listMedia userId ((page - 1) * limit) limit)
  pure ⟨items.map toMediaItem, total, page, limit, totalPages total limit⟩

/-! Writes -/

def share (id requesterId : String) (userIdsToAdd : List String) : Svc (List String) := do
  let media ← findActive id requesterId
  sync (enforceOwner media id requesterId)
  let next := mergeUsers media.ownerId media.sharedWith userIdsToAdd
  if next.length = (newSet (media.sharedWith.getD [])).length then pure next
  else do
    await (.updateSharedWith requesterId id (if next.isEmpty then none else some next))
    await (.delMeta (metaKey id))
    pure next

/-- What `delete` does once the row is inactive. -/
def removeDeleted (id requesterId : String) (media : Media) : Svc Unit := do
  await (.deleteObject media.storagePath)
  match truthy media.thumbnailPath with
  | some path => await (.deleteObject path)
  | none => pure ()
  await (.delMeta (metaKey id))
  QuotaService.recordDelete requesterId (.int media.blobSize)

def delete (id requesterId : String) : Svc Unit := do
  let media ← findActive id requesterId
  sync (enforceOwner media id requesterId)
  await (.softDelete requesterId id)
  removeDeleted id requesterId media

end MediaService

/-! The service -/

/-- The value a call returns. -/
inductive Reply where
  | uploaded (dto : UploadMediaResponseDto)
  | sharedWith (userIds : List String)
  | metadata (dto : MediaMetadataDto)
  | blobUrl (dto : BlobUrlResponseDto)
  | thumbnailUrl (dto : ThumbnailUrlResponseDto)
  | blob (file : StreamableFile)
  | thumbnail (file : Option StreamableFile)
  | userQuota (dto : UserQuotaResponseDto)
  | userMedia (dto : PaginatedMediaResponseDto)
  | quota (result : QuotaCheckResult)
  | done
  deriving DecidableEq

open MediaService QuotaService in
def handle (env : Env) : Call → Svc Reply
  | .upload ownerId file context thumbnailFile sharedWith =>
    Reply.uploaded <$> upload env ownerId file context thumbnailFile sharedWith
  | .share id requesterId userIdsToAdd => Reply.sharedWith <$> share id requesterId userIdsToAdd
  | .delete id requesterId => (fun _ => Reply.done) <$> delete id requesterId
  | .getMetadata id requesterId => Reply.metadata <$> getMetadata id requesterId
  | .getBlob id requesterId => Reply.blobUrl <$> getBlob env id requesterId
  | .getThumbnail id requesterId => Reply.thumbnailUrl <$> getThumbnail env id requesterId
  | .streamBlob id requesterId => Reply.blob <$> streamBlob id requesterId
  | .streamThumbnail id requesterId => Reply.thumbnail <$> streamThumbnail id requesterId
  | .getUserQuota userId => Reply.userQuota <$> getUserQuota userId
  | .getUserMedia userId page limit => Reply.userMedia <$> getUserMedia userId page limit
  | .checkQuota userId blobSize => Reply.quota <$> checkQuota userId blobSize
  | .recordUpload userId blobSize => (fun _ => Reply.done) <$> recordUpload userId blobSize
  | .recordDelete userId blobSize => (fun _ => Reply.done) <$> recordDelete userId blobSize
  | .resetDailyUploads => (fun _ => Reply.done) <$> resetDailyUploads
  | .checkAndPublishQuotaAlert userId =>
    (fun _ => Reply.done) <$> checkAndPublishQuotaAlert userId

/-- The service as a pool of requests over its stores. -/
def service (env : Env) : System Cmd Cmd.Reply World Call Act (Except Err Reply) where
  exec := env.exec
  body x := (handle env x).run
  forks
    | .spawnQuotaAlert userId => [.checkAndPublishQuotaAlert userId]
    | _ => []
  act := Act.apply

end WhisprMedia
