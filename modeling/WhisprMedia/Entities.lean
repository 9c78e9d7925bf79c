import Mathlib.Algebra.Group.Int.Defs
import Mathlib.Tactic.Common

/-! Entities, DTOs, constants and errors of the media service. Times are milliseconds since the
epoch, a calendar date is the number of its UTC day. -/
namespace WhisprMedia

abbrev Buffer := List UInt8

/-- A JavaScript number: an integer, or a value that is none (a fraction, `NaN`, `Infinity`)
with its text. -/
inductive JsNumber where
  | int (n : Int)
  | nonInteger (text : String)
  deriving DecidableEq, Repr

instance : ToString JsNumber where
  toString
    | .int n => toString n
    | .nonInteger text => text

def MAX_SAFE_INTEGER : Int := 2^53 - 1

def JsNumber.isSafeInteger : JsNumber → Bool
  | .int n => -MAX_SAFE_INTEGER ≤ n && n ≤ MAX_SAFE_INTEGER
  | .nonInteger _ => false

/-- `BigInt(n)`; the code calls it on validated sizes only. -/
def JsNumber.toBigInt : JsNumber → Int
  | .int n => n
  | .nonInteger _ => 0

/-- `blobSize < 0`, for a safe integer. -/
def JsNumber.isNegative : JsNumber → Bool
  | .int n => n < 0
  | .nonInteger _ => false

inductive MediaContext where
  | MESSAGE
  | AVATAR
  | GROUP_ICON
  deriving DecidableEq, Repr

def MediaContext.value : MediaContext → String
  | .MESSAGE => "message"
  | .AVATAR => "avatar"
  | .GROUP_ICON => "group_icon"

/-- A multipart file; with multer's memory storage `buffer` is set and `stream` is not. -/
structure File where
  mimetype : String
  size : Nat
  buffer : Option Buffer
  stream : Option Buffer
  deriving DecidableEq, Repr

/-! Rows -/

structure Media where
  id : String
  ownerId : String
  context : String
  storagePath : String
  thumbnailPath : Option String
  contentType : String
  blobSize : Nat
  expiresAt : Option Int
  signedUrlExpiresAt : Option Int
  isActive : Bool
  sharedWith : Option (List String)
  createdAt : Int
  deriving DecidableEq, Repr

structure UserQuota where
  id : String
  userId : String
  storageUsed : Int
  storageLimit : Int
  filesCount : Int
  filesLimit : Int
  dailyUploads : Int
  dailyUploadLimit : Int
  quotaDate : Int
  deriving DecidableEq, Repr

/-! Cache entries -/

structure CachedQuota where
  id : String
  userId : String
  storageUsed : String
  storageLimit : String
  filesCount : Int
  filesLimit : Int
  dailyUploads : Int
  dailyUploadLimit : Int
  quotaDate : Int
  deriving DecidableEq, Repr

structure MediaMetadataDto where
  id : String
  ownerId : String
  context : String
  contentType : String
  blobSize : Nat
  expiresAt : Option Int
  isActive : Bool
  createdAt : Int
  hasThumbnail : Bool
  deriving DecidableEq, Repr

/-- The cached metadata keep the ACL beside the DTO that is returned. -/
structure CachedMeta where
  dto : MediaMetadataDto
  sharedWith : Option (List String)
  deriving DecidableEq, Repr

/-! Results -/

structure QuotaCheckResult where
  allowed : Bool
  reason : Option String
  storageUsed : Int
  storageLimit : Int
  filesCount : Int
  filesLimit : Int
  dailyUploads : Int
  dailyUploadLimit : Int
  deriving DecidableEq, Repr

/-- The payload of a `quota.alert` event. -/
structure QuotaAlert where
  userId : String
  storageUsed : String
  storageLimit : String
  percent : Int
  deriving DecidableEq, Repr

/-- A presigned GET URL: the object it opens and the lifetime that was signed. -/
structure SignedUrl where
  key : String
  expiresIn : Int
  deriving DecidableEq, Repr

structure UploadMediaResponseDto where
  media_id : String
  url : Option SignedUrl
  thumbnail_url : Option SignedUrl
  expires_at : Int
  context : String
  size : Nat
  deriving DecidableEq, Repr

structure BlobUrlResponseDto where
  url : SignedUrl
  expiresAt : Int
  deriving DecidableEq, Repr

structure ThumbnailUrlResponseDto where
  url : Option SignedUrl
  expiresAt : Option Int
  deriving DecidableEq, Repr

/-- The body of an S3 GetObject answer: the object it streams and its bytes. -/
structure Readable where
  key : String
  bytes : Buffer
  deriving DecidableEq, Repr

structure StreamableFile where
  stream : Readable
  type : String
  length : Option Nat
  deriving DecidableEq, Repr

/-- `usagePercent` in hundredths of a percent; a limit below `-2^53` is not rounded here. -/
structure UserQuotaResponseDto where
  storageUsed : Int
  storageLimit : Int
  filesCount : Int
  filesLimit : Int
  dailyUploads : Int
  dailyUploadLimit : Int
  quotaDate : Option Int
  usagePercent : Int
  deriving DecidableEq, Repr

structure MediaItemDto where
  id : String
  contentType : String
  blobSize : Nat
  context : String
  createdAt : Int
  deriving DecidableEq, Repr

structure PaginatedMediaResponseDto where
  items : List MediaItemDto
  total : Nat
  page : Nat
  limit : Nat
  totalPages : Nat
  deriving DecidableEq, Repr

/-- The exceptions of the service; `error` is a plain `Error`, answered with 500. -/
inductive Err where
  | badRequest (message : String)
  | forbidden (message : String)
  | notFound (message : String)
  | payloadTooLarge (message : String)
  | quotaExceeded (result : QuotaCheckResult)
  | unsupportedMediaType (message : String)
  | unprocessableEntity (message : String)
  | tooManyRequests (message : String)
  | serviceUnavailable (message : String)
  | error (message : String)
  deriving DecidableEq, Repr

/-- `getStatus()` of the exception. -/
def Err.status : Err → Nat
  | .badRequest _ => 400
  | .forbidden _ => 403
  | .notFound _ => 404
  | .payloadTooLarge _ | .quotaExceeded _ => 413
  | .unsupportedMediaType _ => 415
  | .unprocessableEntity _ => 422
  | .tooManyRequests _ => 429
  | .serviceUnavailable _ => 503
  | .error _ => 500

/-! Constants -/

def CONTEXT_SIZE_LIMITS : MediaContext → Nat
  | .MESSAGE => 100 * 1024 * 1024
  | .AVATAR => 5 * 1024 * 1024
  | .GROUP_ICON => 5 * 1024 * 1024

def PUBLIC_READABLE_CONTEXTS : List String :=
  [MediaContext.AVATAR.value, MediaContext.GROUP_ICON.value]

def THUMBNAIL_ALLOWED_MIME : List String :=
  ["image/jpeg", "image/png", "image/gif", "image/webp", "image/heic", "image/heif"]

def THUMBNAIL_MAX_BYTES : Nat := 5 * 1024 * 1024

def CONTEXT_MIME_ALLOWLIST : MediaContext → List String
  | .MESSAGE =>
    ["image/jpeg", "image/png", "image/gif", "image/webp", "image/heic", "image/heif",
      "video/mp4", "video/quicktime", "video/webm", "video/x-matroska",
      "audio/mpeg", "audio/ogg", "audio/wav", "audio/mp4", "audio/aac",
      "application/pdf", "application/msword",
      "application/vnd.openxmlformats-officedocument.wordprocessingml.document",
      "application/vnd.openxmlformats-officedocument.spreadsheetml.sheet",
      "application/vnd.openxmlformats-officedocument.presentationml.presentation",
      "application/zip",
      -- ciphertext: opaque, and not in the signature map
      "application/octet-stream"]
  | .AVATAR => ["image/jpeg", "image/png", "image/gif", "image/webp", "image/heic", "image/heif"]
  | .GROUP_ICON =>
    ["image/jpeg", "image/png", "image/gif", "image/webp", "image/heic", "image/heif"]

def META_CACHE_TTL_MS : Nat := 30 * 60 * 1000
def DEDUP_CACHE_TTL_MS : Nat := 7 * 24 * 60 * 60 * 1000
def SEMAPHORE_TTL_SECONDS : Nat := 30 * 60
def MAX_CONCURRENT_UPLOADS : Int := 3

def DEFAULT_STORAGE_LIMIT_BYTES : Int := 1073741824
def DEFAULT_FILES_LIMIT : Int := 1000
def DEFAULT_DAILY_UPLOAD_LIMIT : Int := 100

def QUOTA_CACHE_TTL_MS : Nat := 60 * 60 * 1000
def QUOTA_ALERT_COOLDOWN_TTL_SECONDS : Nat := 60 * 60
def QUOTA_ALERT_THRESHOLDS : List Int := [80, 95]

end WhisprMedia
