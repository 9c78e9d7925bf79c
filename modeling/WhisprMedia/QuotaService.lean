import WhisprMedia.ContentSafety
import WhisprMedia.Decimals

/-! Upload quotas: the check before an upload, the updates after an upload or a delete, the
daily reset and the alerts, over the row in Postgres and its cached copy. -/
namespace WhisprMedia
open Awaiting

/-- `BigInt(text)`, for a text in decimal. -/
def BigInt (text : String) : Except Err Int :=
  match readInteger text.toList with
  | some n => .ok n
  | none => .error (.error s!"Cannot convert {text} to a BigInt")

/-- A `bigint` survives its string form. -/
theorem bigInt_toString (n : ℤ) : BigInt (toString n) = .ok n := by
  suffices h : readInteger n.repr.toList = some n by
    show BigInt n.repr = .ok n
    simp only [BigInt, h]
  cases n with
  | ofNat k =>
    show readInteger k.repr.toList = some (k : ℤ)
    rw [Nat.toList_repr, readInteger_toDigits]
  | negSucc k =>
    show readInteger ("-" ++ (k+1).repr).toList = some (Int.negSucc k)
    rw [String.toList_append, Nat.toList_repr]
    show (readDigits (Nat.toDigits 10 (k+1))).map (fun n => -n) = some (Int.negSucc k)
    rw [readDigits_toDigits]
    rfl

namespace QuotaService

def cacheKey (userId : String) : String := s!"quota:user:{userId}"

theorem cacheKey_injective {a b : String} (h : cacheKey a = cacheKey b) : a = b :=
  (String.append_right_inj _).mp h

def validateBlobSize (blobSize : JsNumber) : Except Err Unit :=
  throwIf (!blobSize.isSafeInteger || blobSize.isNegative)
    (.badRequest s!"Invalid blobSize: {blobSize}")

/-- The plain object that is stored: `bigint` does not survive JSON. -/
def toCached (quota : UserQuota) : CachedQuota where
  id := quota.id
  userId := quota.userId
  storageUsed := toString quota.storageUsed
  storageLimit := toString quota.storageLimit
  filesCount := quota.filesCount
  filesLimit := quota.filesLimit
  dailyUploads := quota.dailyUploads
  dailyUploadLimit := quota.dailyUploadLimit
  quotaDate := quota.quotaDate

def ofCached (cached : CachedQuota) : Except Err UserQuota := do
  let storageUsed ← BigInt cached.storageUsed
  let storageLimit ← BigInt cached.storageLimit
  return {
    id := cached.id
    userId := cached.userId
    storageUsed := storageUsed
    storageLimit := storageLimit
    filesCount := cached.filesCount
    filesLimit := cached.filesLimit
    dailyUploads := cached.dailyUploads
    dailyUploadLimit := cached.dailyUploadLimit
    quotaDate := cached.quotaDate }

theorem ofCached_toCached (quota : UserQuota) : ofCached (toCached quota) = .ok quota := by
  simp only [ofCached, toCached, bigInt_toString]
  rfl

def invalidateCache (userId : String) : Svc Unit :=
  tryCatch (await (.delQuota (cacheKey userId))) fun _ => pure ()

/-- The transaction of `getOrCreateQuota`. -/
def findOrInsertRow (userId : String) : Svc UserQuota := do
  match ← await (.findQuota userId) with
  | some row => pure row
  | none => do
    await (.insertQuotaOrIgnore userId)
    match ← await (.findQuota userId) with
    | some row => pure row
    | none => throw (.error s!"Failed to create or fetch quota for user {userId}")

def getOrCreateQuota (userId : String) : Svc UserQuota := do
  match ← tryCatch (await (.getQuota (cacheKey userId))) fun _ => pure none with
  | some cached => sync (ofCached cached)
  | none => do
    let quota ← findOrInsertRow userId
    tryCatch (await (.setQuota (cacheKey userId) (toCached quota) QUOTA_CACHE_TTL_MS))
      fun _ => pure ()
    pure quota

/-- The first limit that an upload of `blobSize` bytes would pass. -/
def exceeded (quota : UserQuota) (blobSize : Int) : Option String :=
  if quota.storageUsed + blobSize > quota.storageLimit then some "Storage limit exceeded"
  else if quota.filesCount ≥ quota.filesLimit then some "Files count limit exceeded"
  else if quota.dailyUploads ≥ quota.dailyUploadLimit then some "Daily upload limit exceeded"
  else none

def checkResult (quota : UserQuota) (blobSize : Int) : QuotaCheckResult where
  allowed := (exceeded quota blobSize).isNone
  reason := exceeded quota blobSize
  storageUsed := quota.storageUsed
  storageLimit := quota.storageLimit
  filesCount := quota.filesCount
  filesLimit := quota.filesLimit
  dailyUploads := quota.dailyUploads
  dailyUploadLimit := quota.dailyUploadLimit

def checkQuota (userId : String) (blobSize : JsNumber) : Svc QuotaCheckResult := do
  sync (validateBlobSize blobSize)
  let quota ← getOrCreateQuota userId
  pure (checkResult quota blobSize.toBigInt)

def enforceQuota (userId : String) (blobSize : JsNumber) : Svc Unit := do
  let result ← checkQuota userId blobSize
  sync (throwIf (!result.allowed) (.quotaExceeded result))

/-- An update of the row of a user who has none is an error. -/
def enforceAffected (userId : String) (affected : Nat) : Except Err Unit :=
  throwIf (affected = 0) (.error s!"No quota row found for user {userId}")

theorem enforceAffected_error {userId : String} {affected : ℕ} {e : Err}
    (h : enforceAffected userId affected = .error e) : affected = 0 := by
  by_contra ha
  simp [enforceAffected, throwIf, ha] at h

theorem enforceAffected_ok {userId : String} {affected : ℕ} {a : Unit}
    (h : enforceAffected userId affected = .ok a) : affected ≠ 0 := by
  rintro rfl
  simp [enforceAffected, throwIf] at h

def recordUpload (userId : String) (blobSize : JsNumber) : Svc Unit := do
  sync (validateBlobSize blobSize)
  let affected ← await (.chargeQuota userId blobSize.toBigInt)
  sync (enforceAffected userId affected)
  invalidateCache userId
  -- fire and forget
  await (.spawnQuotaAlert userId)

def recordDelete (userId : String) (blobSize : JsNumber) : Svc Unit := do
  sync (validateBlobSize blobSize)
  let affected ← await (.releaseQuota userId blobSize.toBigInt)
  sync (enforceAffected userId affected)
  invalidateCache userId

/-- The commands of one chunk are sent in order, and the chunks one after the other. -/
def invalidateAll : List String → Svc Unit
  | [] => pure ()
  | userId :: userIds => do
    invalidateCache userId
    invalidateAll userIds

def resetDailyUploads : Svc Unit := do
  let userIds ← await .resetDailyUploads
  invalidateAll userIds

def publishQuotaAlert (userId : String) (storageUsed storageLimit percent : Int) : Svc Unit := do
  let acquired ← await
    (.setNxEx s!"quota:alert:cooldown:{userId}:{percent}" QUOTA_ALERT_COOLDOWN_TTL_SECONDS)
  if acquired then
    await (.publish "quota.alert"
      ⟨userId, toString storageUsed, toString storageLimit, percent⟩)
  else pure ()

def publishQuotaAlertAt (quota : UserQuota) (userId : String) (percentUsed threshold : Int) :
    Svc Unit :=
  if percentUsed ≥ threshold then
    publishQuotaAlert userId quota.storageUsed quota.storageLimit threshold
  else pure ()

def publishQuotaAlerts (quota : UserQuota) (userId : String) (percentUsed : Int) :
    List Int → Svc Unit
  | [] => pure ()
  | threshold :: thresholds => do
    publishQuotaAlertAt quota userId percentUsed threshold
    publishQuotaAlerts quota userId percentUsed thresholds

def checkAndPublishQuotaAlert (userId : String) : Svc Unit := do
  let quota ← getOrCreateQuota userId
  if quota.storageLimit = 0 then pure ()
  else
    publishQuotaAlerts quota userId ((quota.storageUsed * 100).tdiv quota.storageLimit)
      QUOTA_ALERT_THRESHOLDS

end QuotaService

end WhisprMedia
