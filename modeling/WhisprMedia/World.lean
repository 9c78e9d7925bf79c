import WhisprMedia.KeyedTable
import WhisprMedia.StoragePath
import WhisprMedia.ThreadPool

/-! The stores of the service and the commands it awaits. A command is one statement, one Redis
or cache command, one S3 request or one call to another service. A write statement stands for the
statement and the commit of its transaction: after its write a transaction at most reads the row
it has inserted, and under READ COMMITTED a row lock puts competing updates in the order of their
commits. -/
namespace WhisprMedia
open Keyed

/-! The world -/

/-- A Redis string used as a counter, with the time it expires at. -/
structure Counter where
  value : Int
  deadline : Option Int
  deriving DecidableEq, Repr

structure StoredObject where
  body : Buffer
  contentType : String
  contentLength : Nat
  deriving DecidableEq, Repr

structure World where
  now : Int
  /-- Counts the answers from outside, so that no two of them need be equal. -/
  nonce : Nat
  /-- Counts the random uuids that have been drawn. -/
  drawn : Nat
  media : Table Media.id
  quotas : Table UserQuota.userId
  bucket : String → Option StoredObject
  /-- When the object under a key was put. -/
  lastModified : String → Int
  semaphores : String → Option Counter
  cooldowns : String → Option Int
  dedupCache : String → Option String
  metaCache : String → Option CachedMeta
  quotaCache : String → Option CachedQuota
  published : List (String × QuotaAlert)

/-- Nothing uploaded, nothing cached. -/
def World.empty : World where
  now := 0
  nonce := 0
  drawn := 0
  media := Table.empty
  quotas := Table.empty
  bucket _ := none
  lastModified _ := 0
  semaphores _ := none
  cooldowns _ := none
  dedupCache _ := none
  metaCache _ := none
  quotaCache _ := none
  published := []

structure SharpMetadata where
  width : Option Nat
  height : Option Nat

structure GroupMember where
  userId : String
  role : String
  deriving DecidableEq, Repr

/-- The body of `GET /groups/v1/:id/members`: a list, or an object that may hold one. -/
inductive MembersBody where
  | list (members : List GroupMember)
  | object (members : Option (List GroupMember))

structure GroupServiceAnswer where
  status : Nat
  body : MembersBody

/-- What the service does not decide itself: configuration, libraries and other services. The
answers of other services may differ from one call to the next. -/
structure Env where
  /-- The value Postgres reads from the text of a uuid, in the form it prints. -/
  uuidIn : String → Option String
  uuidIn_canonical : ∀ s u, uuidIn s = some u → uuidIn u = some u
  randomUUID : Nat → String
  randomUUID_pattern : ∀ n, UUID_PATTERN (randomUUID n) = true
  randomUUID_canonical : ∀ n, uuidIn (randomUUID n) = some (randomUUID n)
  /-- The digest as its hexadecimal digits. -/
  sha256 : Buffer → List (Fin 16)
  sharp : Nat → Buffer → Except String SharpMetadata
  clamd : Nat → Buffer → Except String String
  groupMembers : Nat → String → Except String GroupServiceAnswer
  /-- The order in which a query meets rows that its ORDER BY leaves tied. -/
  rowOrder : Nat → List Media → List Media
  rowOrder_perm : ∀ n rows, (rowOrder n rows).Perm rows
  GROUP_SERVICE_URL : Option String
  CLAMAV_HOST : Option String
  SIGNED_URL_EXPIRY_SECONDS : Int
  MESSAGE_BLOB_TTL_DAYS : Int

/-- The first `n` draws of `randomUUID` are different. -/
def Env.DrawsApart (env : Env) (n : ℕ) : Prop :=
  ∀ i j, i < n → j < n → env.randomUUID i = env.randomUUID j → i = j

theorem Env.DrawsApart.mono {env : Env} {n n' : ℕ} (h : env.DrawsApart n) (hn : n' ≤ n) :
    env.DrawsApart n' := fun i j hi hj => h i j (by omega) (by omega)

/-! Calls of the service -/

inductive Call where
  | upload (ownerId : String) (file : File) (context : MediaContext) (thumbnailFile : Option File)
      (sharedWith : Option (List String))
  | share (id requesterId : String) (userIdsToAdd : List String)
  | delete (id requesterId : String)
  | getMetadata (id requesterId : String)
  | getBlob (id requesterId : String)
  | getThumbnail (id requesterId : String)
  | streamBlob (id requesterId : String)
  | streamThumbnail (id requesterId : String)
  | getUserQuota (userId : String)
  | getUserMedia (userId : String) (page limit : Nat)
  | checkQuota (userId : String) (blobSize : JsNumber)
  | recordUpload (userId : String) (blobSize : JsNumber)
  | recordDelete (userId : String) (blobSize : JsNumber)
  | resetDailyUploads
  | checkAndPublishQuotaAlert (userId : String)
  deriving DecidableEq, Repr

/-! Commands. A statement on `media` runs as the user bound to the request, a statement on
`user_quotas` as the user it is about. -/

inductive Cmd where
  | incr (key : String)
  | decr (key : String)
  | del (key : String)
  | expire (key : String) (seconds : Nat)
  | setNxEx (key : String) (seconds : Nat)
  | publish (channel : String) (payload : QuotaAlert)
  | getDedup (key : String)
  | setDedup (key id : String) (ttl : Nat)
  | getMeta (key : String)
  | setMeta (key : String) (entry : CachedMeta) (ttl : Nat)
  | delMeta (key : String)
  | getQuota (key : String)
  | setQuota (key : String) (entry : CachedQuota) (ttl : Nat)
  | delQuota (key : String)
  | findMedia (user id : String)
  | listMedia (userId : String) (skip take : Nat)
  | saveMedia (user : String) (media : Media)
  | updateSharedWith (user id : String) (sharedWith : Option (List String))
  | softDelete (user id : String)
  | updateSignedUrlExpiry (user id : String) (signedUrlExpiresAt : Int)
  | findQuota (userId : String)
  | insertQuotaOrIgnore (userId : String)
  | chargeQuota (userId : String) (blobSize : Int)
  | releaseQuota (userId : String) (blobSize : Int)
  | resetDailyUploads
  | putObject (key : String) (object : StoredObject)
  | deleteObject (key : String)
  | getObject (key : String)
  | presign (key : String) (expiresIn : Int)
  | now
  | randomUUID
  | sharpMetadata (buffer : Buffer)
  | sendToClamd (buffer : Buffer)
  | fetchGroupMembers (id : String)
  | spawnQuotaAlert (userId : String)
  deriving DecidableEq

/-- The value a command is answered with. -/
abbrev Cmd.Value : Cmd → Type
  | .incr _ | .decr _ => Int
  | .setNxEx _ _ => Bool
  | .getDedup _ => Option String
  | .getMeta _ => Option CachedMeta
  | .getQuota _ => Option CachedQuota
  | .findMedia _ _ => Option Media
  | .listMedia _ _ _ => List Media × Nat
  | .findQuota _ => Option UserQuota
  | .chargeQuota _ _ | .releaseQuota _ _ => Nat
  | .resetDailyUploads => List String
  | .getObject _ => Readable
  | .presign _ _ => SignedUrl
  | .now => Int
  | .randomUUID => String
  | .sharpMetadata _ => SharpMetadata
  | .sendToClamd _ => String
  | .fetchGroupMembers _ => GroupServiceAnswer
  | _ => Unit

/-- The answer of a command: its value, or the message of the error it threw. -/
abbrev Cmd.Reply (c : Cmd) : Type := Except String c.Value

/-! Effects -/

/-- The policies on `media` after all migrations: `media_owner_write_policy` admits the owner to
every command, `media_public_context_select_policy` admits readers of public contexts and users
in `shared_with` to SELECT. -/
def rlsSelect (user : String) (m : Media) : Bool :=
  m.ownerId = user || m.context = "avatar" || m.context = "group_icon" ||
    (m.sharedWith.getD []).contains user

/-- The UTC day of a time. -/
def utcDay (time : Int) : Int := time / 86400000

def invalidUuid : String := "invalid input syntax for type uuid"

namespace World
variable (w : World)

/-- An UPDATE of one media row: the policies leave it without effect on rows of other owners. -/
def updateOwned (user id : String) (f : Media → Media) (hf : ∀ m, (f m).id = m.id) : World :=
  { w with media := (w.media.modify id (fun m => if m.ownerId = user then f m else m)
      fun m => by split <;> simp [hf]) }

def updateQuota (userId : String) (f : UserQuota → UserQuota)
    (hf : ∀ q, (f q).userId = q.userId) : World :=
  { w with quotas := w.quotas.modify userId f hf }

end World

namespace Env
variable (env : Env)

/-- An array parameter of type uuid[]. -/
def uuidArrayIn : Option (List String) → Option (Option (List String))
  | none => some none
  | some l => (l.mapM env.uuidIn).map some

/-- A row as the INSERT stores it. -/
def mediaIn (now : Int) (m : Media) : Option Media := do
  let id ← env.uuidIn m.id
  let ownerId ← env.uuidIn m.ownerId
  let sharedWith ← env.uuidArrayIn m.sharedWith
  return { m with id, ownerId, sharedWith, createdAt := now }

def defaultQuota (w : World) (userId : String) : UserQuota where
  id := env.randomUUID w.drawn
  userId := userId
  storageUsed := 0
  storageLimit := DEFAULT_STORAGE_LIMIT_BYTES
  filesCount := 0
  filesLimit := DEFAULT_FILES_LIMIT
  dailyUploads := 0
  dailyUploadLimit := DEFAULT_DAILY_UPLOAD_LIMIT
  quotaDate := utcDay w.now

/-- The effect of a command that does not fail by itself. -/
def exec (c : Cmd) (w : World) : c.Reply × World :=
  match c with
  | .incr key =>
    let old := (w.semaphores key).getD ⟨0, none⟩
    (.ok (old.value + 1), { w with
      semaphores := Function.update w.semaphores key (some ⟨old.value + 1, old.deadline⟩) })
  | .decr key =>
    let old := (w.semaphores key).getD ⟨0, none⟩
    (.ok (old.value - 1), { w with
      semaphores := Function.update w.semaphores key (some ⟨old.value - 1, old.deadline⟩) })
  | .del key => (.ok (), { w with semaphores := Function.update w.semaphores key none })
  | .expire key seconds =>
    (.ok (), { w with
      semaphores := Function.update w.semaphores key
        ((w.semaphores key).map fun n => ⟨n.value, some (w.now + seconds * 1000)⟩) })
  | .setNxEx key seconds =>
    if (w.cooldowns key).isSome then (.ok false, w)
    else (.ok true, { w with
      cooldowns := Function.update w.cooldowns key (some (w.now + seconds * 1000)) })
  | .publish channel payload => (.ok (), { w with published := w.published ++ [(channel, payload)] })
  | .getDedup key => (.ok (w.dedupCache key), w)
  | .setDedup key id _ => (.ok (), { w with dedupCache := Function.update w.dedupCache key (some id) })
  | .getMeta key => (.ok (w.metaCache key), w)
  | .setMeta key entry _ =>
    (.ok (), { w with metaCache := Function.update w.metaCache key (some entry) })
  | .delMeta key => (.ok (), { w with metaCache := Function.update w.metaCache key none })
  | .getQuota key => (.ok (w.quotaCache key), w)
  | .setQuota key entry _ =>
    (.ok (), { w with quotaCache := Function.update w.quotaCache key (some entry) })
  | .delQuota key => (.ok (), { w with quotaCache := Function.update w.quotaCache key none })
  | .findMedia user id =>
    match env.uuidIn user, env.uuidIn id with
    | some u, some i => (.ok ((w.media.get i).filter fun m => m.isActive && rlsSelect u m), w)
    | _, _ => (.error invalidUuid, w)
  | .listMedia userId skip take =>
    match env.uuidIn userId with
    | some u =>
      let rows := w.media.rows.filter fun m => m.ownerId = u && m.isActive && rlsSelect u m
      let sorted := (env.rowOrder w.nonce rows).mergeSort fun m m' => m'.createdAt ≤ m.createdAt
      (.ok ((sorted.drop skip).take take, rows.length), { w with nonce := w.nonce + 1 })
    | none => (.error invalidUuid, w)
  | .saveMedia user media =>
    -- an entity whose id is stored already would be updated; the ids saved here are fresh
    match env.uuidIn user, env.mediaIn w.now media with
    | some u, some m =>
      if m.ownerId ≠ u then
        (.error "new row violates row-level security policy for table \"media\"", w)
      else if (w.media.get m.id).isSome then
        (.error "duplicate key value violates unique constraint \"PK_media\"", w)
      else (.ok (), { w with media := w.media.insert m })
    | _, _ => (.error invalidUuid, w)
  | .updateSharedWith user id sharedWith =>
    match env.uuidIn user, env.uuidIn id, env.uuidArrayIn sharedWith with
    | some u, some i, some s => (.ok (), w.updateOwned u i ({ · with sharedWith := s }) fun _ => rfl)
    | _, _, _ => (.error invalidUuid, w)
  | .softDelete user id =>
    match env.uuidIn user, env.uuidIn id with
    | some u, some i => (.ok (), w.updateOwned u i ({ · with isActive := false }) fun _ => rfl)
    | _, _ => (.error invalidUuid, w)
  | .updateSignedUrlExpiry user id signedUrlExpiresAt =>
    match env.uuidIn user, env.uuidIn id with
    | some u, some i =>
      (.ok (), w.updateOwned u i ({ · with signedUrlExpiresAt := some signedUrlExpiresAt })
        fun _ => rfl)
    | _, _ => (.error invalidUuid, w)
  | .findQuota userId =>
    match env.uuidIn userId with
    | some u => (.ok (w.quotas.get u), w)
    | none => (.error invalidUuid, w)
  | .insertQuotaOrIgnore userId =>
    match env.uuidIn userId with
    | some u =>
      (.ok (), { w with quotas := w.quotas.insert (env.defaultQuota w u), drawn := w.drawn + 1 })
    | none => (.error invalidUuid, w)
  | .chargeQuota userId blobSize =>
    match env.uuidIn userId with
    | some u =>
      (.ok (if (w.quotas.get u).isSome then 1 else 0),
        w.updateQuota u (fun q => { q with
          storageUsed := q.storageUsed + blobSize
          filesCount := q.filesCount + 1
          dailyUploads := q.dailyUploads + 1 }) fun _ => rfl)
    | none => (.error invalidUuid, w)
  | .releaseQuota userId blobSize =>
    match env.uuidIn userId with
    | some u =>
      (.ok (if (w.quotas.get u).isSome then 1 else 0),
        w.updateQuota u (fun q => { q with
          storageUsed := max 0 (q.storageUsed - blobSize)
          filesCount := max 0 (q.filesCount - 1) }) fun _ => rfl)
    | none => (.error invalidUuid, w)
  | .resetDailyUploads =>
    let today := utcDay w.now
    (.ok ((w.quotas.rows.filter fun q => q.quotaDate < today).map (·.userId)),
      { w with
        quotas := (w.quotas.mapRows
          (fun q => if q.quotaDate < today then { q with dailyUploads := 0, quotaDate := today }
            else q)
          fun q => by split <;> rfl) })
  | .putObject key object =>
    (.ok (), { w with
      bucket := Function.update w.bucket key (some object)
      lastModified := Function.update w.lastModified key w.now })
  | .deleteObject key => (.ok (), { w with bucket := Function.update w.bucket key none })
  | .getObject key =>
    match w.bucket key with
    | some object => (.ok ⟨key, object.body⟩, w)
    | none => (.error "NoSuchKey", w)
  | .presign key expiresIn => (.ok ⟨key, expiresIn⟩, w)
  | .now => (.ok w.now, w)
  | .randomUUID => (.ok (env.randomUUID w.drawn), { w with drawn := w.drawn + 1 })
  | .sharpMetadata buffer => (env.sharp w.nonce buffer, { w with nonce := w.nonce + 1 })
  | .sendToClamd buffer => (env.clamd w.nonce buffer, { w with nonce := w.nonce + 1 })
  | .fetchGroupMembers id => (env.groupMembers w.nonce id, { w with nonce := w.nonce + 1 })
  | .spawnQuotaAlert _ => (.ok (), w)

end Env

/-! What happens to the stores besides the commands -/

inductive Act where
  /-- The clock moves on. -/
  | tick (ms : Nat)
  | evictDedup (key : String)
  | evictMeta (key : String)
  | evictQuota (key : String)
  /-- Redis removes a counter whose time has come. -/
  | expireSemaphore (key : String)
  | expireCooldown (key : String)
  /-- The timer of `runWithSemaphoreTtlRefresh` fires for an upload in progress. -/
  | refreshSemaphoreTtl (key : String)
  deriving DecidableEq

def Act.apply (a : Act) (w : World) : World :=
  match a with
  | .tick ms => { w with now := w.now + ms }
  | .evictDedup key => { w with dedupCache := Function.update w.dedupCache key none }
  | .evictMeta key => { w with metaCache := Function.update w.metaCache key none }
  | .evictQuota key => { w with quotaCache := Function.update w.quotaCache key none }
  | .expireSemaphore key =>
    if (((w.semaphores key).bind Counter.deadline).any fun t => t ≤ w.now) then
      { w with semaphores := Function.update w.semaphores key none }
    else w
  | .expireCooldown key =>
    if (w.cooldowns key).any fun t => t ≤ w.now then
      { w with cooldowns := Function.update w.cooldowns key none }
    else w
  | .refreshSemaphoreTtl key =>
    { w with
      semaphores := Function.update w.semaphores key
        ((w.semaphores key).map fun n => ⟨n.value, some (w.now + SEMAPHORE_TTL_SECONDS * 1000)⟩) }

/-! A small deployment -/

instance neZero_ten : NeZero 10 := ⟨Nat.succ_ne_zero 9⟩

/-- Uuids in the form Postgres prints. -/
def exampleId (i : Fin 10) : String := s!"a0000000-0000-4000-8000-00000000000{i.val}"

def exampleUuidIn (s : String) : Option String :=
  if UUID_PATTERN s && s.toList.all (fun c => c.toLower = c) then some s else none

theorem exampleId_toList (i : Fin 10) : (exampleId i).toList =
    "a0000000-0000-4000-8000-00000000000".toList ++ [Nat.digitChar i.val] := by
  have hdigit : ∀ i : Fin 10, (toString i.val).toList = [Nat.digitChar i.val] := by decide +kernel
  unfold exampleId
  rw [String.toList_append, hdigit]
  rfl

theorem exampleId_pattern : ∀ i, UUID_PATTERN (exampleId i) = true := by
  simp only [UUID_PATTERN, exampleId_toList]
  decide +kernel

theorem exampleId_canonical : ∀ i, exampleUuidIn (exampleId i) = some (exampleId i) := by
  have hlower : ∀ i, ((exampleId i).toList.all fun c => c.toLower = c) = true := by
    simp only [exampleId_toList]
    decide +kernel
  intro i
  rw [exampleUuidIn, exampleId_pattern, hlower]
  rfl

theorem exampleId_injective (i j : Fin 10) (h : exampleId i = exampleId j) : i = j := by
  have hdigits := congrArg String.toList h
  rw [exampleId_toList, exampleId_toList, List.append_right_inj, List.cons.injEq] at hdigits
  revert i j
  decide +kernel

/-- No scanner, no group-service, readable images of unknown size, and a digest of the length. -/
def exampleEnv : Env where
  uuidIn := exampleUuidIn
  uuidIn_canonical s u h := by
    unfold exampleUuidIn at h
    split at h
    · next hs =>
      obtain rfl := Option.some.inj h
      exact if_pos hs
    · exact absurd h (by simp)
  randomUUID n := exampleId (Fin.ofNat 10 n)
  randomUUID_pattern _ := exampleId_pattern _
  randomUUID_canonical _ := exampleId_canonical _
  sha256 buffer := [Fin.ofNat 16 buffer.length]
  sharp _ _ := .ok ⟨none, none⟩
  clamd _ _ := .ok "stream: OK"
  groupMembers _ _ := .error "group-service cannot be reached"
  rowOrder _ rows := rows
  rowOrder_perm _ _ := List.Perm.refl _
  GROUP_SERVICE_URL := none
  CLAMAV_HOST := none
  SIGNED_URL_EXPIRY_SECONDS := 3600
  MESSAGE_BLOB_TTL_DAYS := 30

theorem exampleEnv_drawsApart {n : ℕ} (h : n ≤ 10) : exampleEnv.DrawsApart n := by
  intro i j hi hj hij
  have hfin : Fin.ofNat 10 i = Fin.ofNat 10 j := exampleId_injective _ _ hij
  have hval := congrArg Fin.val hfin
  simpa [Fin.ofNat, Nat.mod_eq_of_lt (by omega : i < 10), Nat.mod_eq_of_lt (by omega : j < 10)]
    using hval

end WhisprMedia
