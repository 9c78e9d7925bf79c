import WhisprMedia.CommandSums
import WhisprMedia.JwksLoading
import WhisprMedia.MediaController

/-! The way of a request to the service: the guard that authenticates it, the interceptor that binds
its user, the controller, and what the service tells others while it answers: access log, events and
counters. Throttling and logging are left out, and public routes, which never get to the service; a
row of the access log is always written. -/
namespace WhisprMedia
open Awaiting MediaService

/-! Tokens -/

/-- The claims of a token that the guard reads. -/
structure JwtPayload where
  sub : Option String
  jti : Option String
  deviceId : Option String
  fingerprint : Option String
  deriving DecidableEq

/-- `request.user`. -/
structure AuthUser where
  userId : String
  jti : String
  deviceId : String
  fingerprint : Option String
  deriving DecidableEq

/-- A payload lacks no claim that the guard needs. -/
def AuthUser.ofPayload (payload : JwtPayload) : Option AuthUser := do
  let sub ← truthy payload.sub
  let jti ← truthy payload.jti
  let deviceId ← truthy payload.deviceId
  return ⟨sub, jti, deviceId, payload.fingerprint⟩

def revokedKey (jti : String) : String := s!"revoked:{jti}"

def revokedDeviceKey (deviceId : String) : String := s!"revoked_device:{deviceId}"

/-- Libraries of the HTTP layer. -/
structure HttpEnv (KeyObject : Type) extends JwksEnv KeyObject where
  /-- `key.export({ type: 'spki', format: 'pem' })`. -/
  exportPem : KeyObject → String
  /-- `jwtService.verifyAsync` with ES256, at a time, for a public key and a token. -/
  verifyAsync : Int → String → String → Except String JwtPayload
  /-- The error of the n-th read of the revocations, if it fails. -/
  cacheError : ℕ → Option String
  /-- What goes wrong with the n-th PUBLISH of an event, if it fails. -/
  publishFault : ℕ → Option Fault
  /-- The ids of access-log rows. -/
  logId : ℕ → String

/-! Requests -/

inductive HeaderValue where
  | single (text : String)
  | several (texts : List String)
  deriving DecidableEq

structure HttpRequest where
  authorization : Option String
  forwardedFor : Option HeaderValue
  remoteAddress : Option String
  userAgent : Option String
  endpoint : Endpoint
  deriving DecidableEq

/-- What is thrown to the client: 401, or an exception of the service. -/
inductive HttpErr where
  | unauthorized
  | exception (e : Err)
  deriving DecidableEq

/-! What the service tells others -/

/-- The payload of `media.uploaded`. -/
structure MediaUploaded where
  mediaId : String
  ownerId : String
  context : String
  contentType : String
  size : ℕ
  hasThumbnail : Bool
  deriving DecidableEq

/-- The payload of `media.deleted`. -/
structure MediaDeleted where
  mediaId : String
  ownerId : String
  context : String
  deriving DecidableEq

inductive MediaEvent where
  | uploaded (payload : MediaUploaded)
  | deleted (payload : MediaDeleted)
  deriving DecidableEq

def uploadedPayload (media : Media) : MediaUploaded where
  mediaId := media.id
  ownerId := media.ownerId
  context := media.context
  contentType := media.contentType
  size := media.blobSize
  hasThumbnail := media.thumbnailPath.isSome

def deletedPayload (media : Media) : MediaDeleted := ⟨media.id, media.ownerId, media.context⟩

inductive MetricsCounter where
  | uploadsTotal
  | downloadsTotal
  | deletesTotal
  deriving DecidableEq

/-- A row of `media_access_logs`. -/
structure MediaAccessLog where
  accessedAt : Int
  id : String
  mediaId : String
  accessorId : Option String
  accessType : String
  ipAddress : Option String
  userAgent : Option String
  deriving DecidableEq

/-- `s.slice(0, n)`; headers hold characters of one unit each. -/
def sliceTo (n : ℕ) (s : String) : String := String.ofList (s.toList.take n)

inductive HttpCmd where
  | getPublicKeyPem
  | verifyAsync (token publicKey : String)
  | getRevocation (key : String)
  /-- The interceptor binds the user, and the controller is entered. -/
  | enter (req : Request)
  | writeAccessLog (mediaId accessorId accessType : String) (ipAddress userAgent : Option String)
  | publish (event : MediaEvent)
  | inc (counter : MetricsCounter)
  deriving DecidableEq

abbrev HttpCmd.Reply : HttpCmd → Type
  | .getPublicKeyPem => Option String
  | .verifyAsync _ _ => Except String JwtPayload
  | .getRevocation _ => Except String (Option String)
  | .publish _ => Except String Unit
  | _ => Unit

/-- A command of the service or of its HTTP layer, with its answer. -/
abbrev HttpEvent := Event (Cmd ⊕ HttpCmd) (SumReply Cmd.Reply HttpCmd.Reply)

/-- A function of the HTTP layer. -/
abbrev Http (α : Type) := ProgE (Cmd ⊕ HttpCmd) (SumReply Cmd.Reply HttpCmd.Reply) HttpErr α

/-- A function of the service. -/
def within {α : Type} (x : Svc α) : Http α := ProgE.inner HttpErr.exception x

def tell (c : HttpCmd) : Http c.Reply := ProgE.outer c

/-! The guard -/

namespace JwtAuthGuard

def extractBearerToken (authorization : Option String) : Option String :=
  (authorization.filter fun header => "Bearer ".toList.isPrefixOf header.toList).map fun header =>
    String.ofList (header.toList.drop 7)

/-- Neither the token nor the device has been revoked; both reads are sent before one is awaited. -/
def checkRevocation (user : AuthUser) : Http AuthUser := do
  let tokenRevoked : Except String (Option String) ← tell (.getRevocation (revokedKey user.jti))
  let deviceRevoked : Except String (Option String) ←
    tell (.getRevocation (revokedDeviceKey user.deviceId))
  match tokenRevoked, deviceRevoked with
  | .ok none, .ok none => pure user
  | .error message, _ | .ok _, .error message => throw (.exception (.error message))
  | .ok _, .ok _ => throw .unauthorized

def authenticate (token : String) : Http AuthUser := do
  let publicKeyPem : Option String ← tell .getPublicKeyPem
  match truthy publicKeyPem with
  | none => throw .unauthorized
  | some publicKey => do
    let verified : Except String JwtPayload ← tell (.verifyAsync token publicKey)
    match verified with
    | .error _ => throw .unauthorized
    | .ok payload =>
      match AuthUser.ofPayload payload with
      | none => throw .unauthorized
      | some user => checkRevocation user

/-- The user of a request, or `none` on a public route. -/
def canActivate (isPublic : Bool) (authorization : Option String) : Http (Option AuthUser) :=
  if isPublic then pure none
  else
    match truthy (extractBearerToken authorization) with
    | none => throw .unauthorized
    | some token => some <$> authenticate token

end JwtAuthGuard

/-! The service, with what it tells others -/

namespace HttpService

/-- The part of `upload` that runs while it holds the semaphore. -/
def uploadHeld (env : Env) (ownerId : String) (file : File) (context : MediaContext)
    (thumbnailFile : Option File) (sharedWith : Option (List String)) :
    Http UploadMediaResponseDto := do
  within (authorizeGroupIconUpload env context ownerId)
  within (QuotaService.enforceQuota ownerId (.int file.size))
  within (validateFile env file context)
  let key := dedupKey ownerId context (env.sha256 (fileBuffer file))
  match ← within (findDuplicate ownerId key) with
  | some existing => do
    within (mergeSharedWith ownerId existing sharedWith)
    within (buildUploadResponse env existing)
  | none => do
    let media ← within (storeNew env ownerId file context thumbnailFile sharedWith)
    within (await (.setDedup key media.id DEDUP_CACHE_TTL_MS))
    within (QuotaService.recordUpload ownerId (.int file.size))
    tell (.inc .uploadsTotal)
    -- a PUBLISH that fails is logged, and the upload goes on
    let _published : Except String Unit ← tell (.publish (.uploaded (uploadedPayload media)))
    within (buildUploadResponse env media)

def upload (env : Env) (ownerId : String) (file : File) (context : MediaContext)
    (thumbnailFile : Option File) (sharedWith : Option (List String)) :
    Http UploadMediaResponseDto := do
  within (acquireSemaphore ownerId)
  ProgE.ensuring (uploadHeld env ownerId file context thumbnailFile sharedWith)
    (within (releaseSemaphore ownerId))

def getBlob (env : Env) (id requesterId : String) (ipAddress userAgent : Option String) :
    Http BlobUrlResponseDto := do
  let media ← within (findReadable id requesterId)
  let dto ← within (getOrGenerateSignedUrl env media requesterId)
  tell (.writeAccessLog media.id requesterId "blob" ipAddress userAgent)
  tell (.inc .downloadsTotal)
  pure dto

def getThumbnail (env : Env) (id requesterId : String) (ipAddress userAgent : Option String) :
    Http ThumbnailUrlResponseDto := do
  let media ← within (findReadable id requesterId)
  match truthy media.thumbnailPath with
  | none => pure ⟨none, none⟩
  | some path => do
    let url ← within (generatePresignedUrl path env.SIGNED_URL_EXPIRY_SECONDS)
    let now : Int ← within (await .now)
    tell (.writeAccessLog media.id requesterId "thumbnail" ipAddress userAgent)
    tell (.inc .downloadsTotal)
    pure ⟨some url, some (now + env.SIGNED_URL_EXPIRY_SECONDS * 1000)⟩

def streamBlob (id requesterId : String) (ipAddress userAgent : Option String) :
    Http StreamableFile := do
  let media ← within (findReadable id requesterId)
  let bodyStream : Readable ← within (await (.getObject media.storagePath))
  tell (.writeAccessLog media.id requesterId "blob" ipAddress userAgent)
  pure ⟨bodyStream, media.contentType, some media.blobSize⟩

def streamThumbnail (id requesterId : String) (ipAddress userAgent : Option String) :
    Http (Option StreamableFile) := do
  let media ← within (findReadable id requesterId)
  match truthy media.thumbnailPath with
  | none => pure none
  | some path => do
    let bodyStream : Readable ← within (await (.getObject path))
    tell (.writeAccessLog media.id requesterId "thumbnail" ipAddress userAgent)
    pure (some ⟨bodyStream, "image/*", none⟩)

def delete (id requesterId : String) (ipAddress userAgent : Option String) : Http Unit := do
  let media ← within (findActive id requesterId)
  within (sync (enforceOwner media id requesterId))
  within (await (.softDelete requesterId id))
  within (removeDeleted id requesterId media)
  tell (.writeAccessLog media.id requesterId "delete" ipAddress userAgent)
  let _published : Except String Unit ← tell (.publish (.deleted (deletedPayload media)))
  tell (.inc .deletesTotal)

/-- A call of the controller; calls that tell others nothing are left as they are. -/
def handle (env : Env) (ipAddress userAgent : Option String) : Call → Http Reply
  | .upload ownerId file context thumbnailFile sharedWith =>
    Reply.uploaded <$> upload env ownerId file context thumbnailFile sharedWith
  | .delete id requesterId =>
    (fun _ => Reply.done) <$> delete id requesterId ipAddress userAgent
  | .getBlob id requesterId => Reply.blobUrl <$> getBlob env id requesterId ipAddress userAgent
  | .getThumbnail id requesterId =>
    Reply.thumbnailUrl <$> getThumbnail env id requesterId ipAddress userAgent
  | .streamBlob id requesterId => Reply.blob <$> streamBlob id requesterId ipAddress userAgent
  | .streamThumbnail id requesterId =>
    Reply.thumbnail <$> streamThumbnail id requesterId ipAddress userAgent
  | x => within (WhisprMedia.handle env x)

/-- The first address of the header, cut to the width of its column, or else the peer's. -/
def extractClientIp (req : HttpRequest) : Option String :=
  let forwardedStr := match req.forwardedFor with
    | some (.single text) => some text
    | some (.several texts) => texts.head?
    | none => none
  let first := (truthy forwardedStr).bind fun text =>
    truthy (some (String.ofList (trim (text.toList.takeWhile (· ≠ ',')))))
  match first with
  | some ip => some (sliceTo 45 ip)
  | none => req.remoteAddress.map (sliceTo 45)

/-- The controller, once the guard has let the request through. -/
def respond (env : Env) (req : HttpRequest) (request : Request) : Http Reply := do
  let call ← within (sync (MediaController.route request))
  let reply ← handle env (extractClientIp req) req.userAgent call
  within (sync (MediaController.respond reply))

def serve (env : Env) (req : HttpRequest) : Http Reply := do
  let user ← JwtAuthGuard.canActivate false req.authorization
  let request : Request := ⟨(user.map AuthUser.userId).getD "", req.endpoint⟩
  tell (.enter request)
  respond env req request

end HttpService

/-! The system -/

structure HttpWorld (KeyObject : Type) where
  service : World
  jwks : JwksService KeyObject
  /-- The revocations in the cache, by key. -/
  revoked : String → Option String
  /-- Counts the reads of revocations. -/
  reads : ℕ
  /-- The access-log rows that have been handed to the repository. -/
  accessLog : List MediaAccessLog
  /-- The events that subscribers have received. -/
  published : List MediaEvent
  /-- The events whose PUBLISH has failed on its way. -/
  lost : List MediaEvent
  counters : MetricsCounter → ℕ

inductive HttpAct where
  | service (a : Act)
  | jwks (e : JwksEvent)
  /-- Another service revokes a token or a device. -/
  | setRevocation (key value : String)
  | dropRevocation (key : String)

/-- Requests, the cron job, and the background work of an upload. -/
inductive HttpCall where
  | request (req : HttpRequest)
  | resetDailyUploads
  | checkAndPublishQuotaAlert (userId : String)
  deriving DecidableEq

def HttpCall.job? : HttpCall → Option Call
  | .request _ => none
  | .resetDailyUploads => some .resetDailyUploads
  | .checkAndPublishQuotaAlert userId => some (.checkAndPublishQuotaAlert userId)

section System
variable {KeyObject : Type} (env : Env) (http : HttpEnv KeyObject)

/-- Before the first request; the key is being loaded. -/
def HttpWorld.start : HttpWorld KeyObject where
  service := World.empty
  jwks := JwksService.onModuleInit http.toJwksEnv
  revoked _ := none
  reads := 0
  accessLog := []
  published := []
  lost := []
  counters _ := 0

def HttpEnv.exec (c : HttpCmd) (w : HttpWorld KeyObject) : c.Reply × HttpWorld KeyObject :=
  match c with
  | .getPublicKeyPem => (w.jwks.publicKey.map http.exportPem, w)
  | .verifyAsync token publicKey => (http.verifyAsync w.service.now publicKey token, w)
  | .getRevocation key =>
    (match http.cacheError w.reads with
      | some message => .error message
      | none => .ok (w.revoked key), { w with reads := w.reads + 1 })
  | .enter _ => ((), w)
  | .writeAccessLog mediaId accessorId accessType ipAddress userAgent =>
    ((), { w with accessLog := w.accessLog ++ [{
      accessedAt := w.service.now
      id := http.logId w.accessLog.length
      mediaId := mediaId
      accessorId := some accessorId
      accessType := accessType
      ipAddress := ipAddress
      userAgent := userAgent.map (sliceTo 512) }] })
  | .publish event =>
    let fault := http.publishFault (w.published.length + w.lost.length)
    let received := fault.all Fault.applied
    (match fault with
      | none => .ok ()
      | some f => .error f.message,
      { w with
        published := if received then w.published ++ [event] else w.published
        lost := if received then w.lost else w.lost ++ [event] })
  | .inc counter =>
    ((), { w with counters := Function.update w.counters counter (w.counters counter + 1) })

def HttpAct.apply (a : HttpAct) (w : HttpWorld KeyObject) : HttpWorld KeyObject :=
  match a with
  | .service a => { w with service := a.apply w.service }
  | .jwks e => { w with jwks := (w.jwks.next http.toJwksEnv e).getD w.jwks }
  | .setRevocation key value =>
    { w with revoked := Function.update w.revoked key (some value) }
  | .dropRevocation key => { w with revoked := Function.update w.revoked key none }

/-- A request or a job, to its end. -/
def HttpCall.body : HttpCall → Http Reply
  | .request req => HttpService.serve env req
  | .resetDailyUploads => within (handle env .resetDailyUploads)
  | .checkAndPublishQuotaAlert userId => within (handle env (.checkAndPublishQuotaAlert userId))

/-- The service behind its HTTP layer; its dependencies may fail. -/
def httpService (fault : Cmd → World → Option Fault) :
    System (Cmd ⊕ HttpCmd) (SumReply Cmd.Reply HttpCmd.Reply) (HttpWorld KeyObject) HttpCall HttpAct
      (Except HttpErr Reply) where
  exec
    | .inl c, w =>
      let r := env.execFaulty fault c w.service
      (r.1, { w with service := r.2 })
    | .inr c, w => http.exec c w
  body x := (x.body env).run
  forks
    | .inl (.spawnQuotaAlert userId) => [.checkAndPublishQuotaAlert userId]
    | _ => []
  act := HttpAct.apply http

end System

/-- No dependency fails. -/
def faultless (_ : Cmd) (_ : World) : Option Fault := none

abbrev HttpThread :=
  Thread (Cmd ⊕ HttpCmd) (SumReply Cmd.Reply HttpCmd.Reply) HttpCall (Except HttpErr Reply)

abbrev HttpPool (KeyObject : Type) := Pool (Cmd ⊕ HttpCmd) (SumReply Cmd.Reply HttpCmd.Reply)
  (HttpWorld KeyObject) HttpCall (Except HttpErr Reply)

/-! An example -/

/-- Two tokens that the key `AQ` has signed, for the users 7 and 8. -/
def exampleHttp : HttpEnv String where
  toJwksEnv := exampleJwks
  exportPem key := s!"PEM {key}"
  verifyAsync _ publicKey token :=
    if publicKey = "PEM AQ" ∧ token = "t7" then
      .ok ⟨some (exampleId 7), some "j7", some "d7", none⟩
    else if publicKey = "PEM AQ" ∧ token = "t8" then
      .ok ⟨some (exampleId 8), some "j8", some "d8", none⟩
    else .error "invalid signature"
  cacheError _ := none
  publishFault _ := none
  logId n := exampleId (Fin.ofNat 10 n)

/-- The key arrives with the first attempt. -/
def keyLoaded : List (Label HttpCall HttpAct) :=
  [.act (.jwks (.fetched 0 (.response true 200))), .act (.jwks (.parsed 0 (.ok (some ⟨some
    [⟨"EC", some "sig", none, some "P-256", some "AQ", some "Ag"⟩]⟩))))]

def bearing (token : String) (endpoint : Endpoint) : HttpRequest :=
  ⟨some s!"Bearer {token}", none, some "10.0.0.1", some "app", endpoint⟩

/-- The request becomes thread `i` and runs to its end. -/
def servedAlone (i n : ℕ) (req : HttpRequest) : List (Label HttpCall HttpAct) :=
  .call (.request req) :: List.replicate n (.step i)

/-- A message of one byte. -/
def exampleUploadDto : UploadMediaDto where
  file := some ⟨"application/octet-stream", 1, some [0], none⟩
  thumbnail := none
  ownerId := none
  context := none
  conversationIdHeader := some "conversation"
  conversationId := none
  conversationIsE2EE := true
  sharedWith := none

end WhisprMedia
