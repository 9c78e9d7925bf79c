import WhisprMedia.MediaService

/-! The HTTP endpoints under `media/v1`, and the service behind them as a pool of requests, cron
jobs and background work whose dependencies may fail. -/
namespace WhisprMedia
open Awaiting

/-- A multipart upload. `conversationIsE2EE` is what messaging-service answers about the
conversation of the request. -/
structure UploadMediaDto where
  file : Option File
  thumbnail : Option File
  ownerId : Option String
  context : Option MediaContext
  conversationIdHeader : Option String
  conversationId : Option String
  conversationIsE2EE : Bool
  sharedWith : Option (List String)
  deriving DecidableEq

inductive Endpoint where
  | upload (dto : UploadMediaDto)
  /-- `Number.parseInt` of the query parameters, `none` where it is `NaN`. -/
  | getMyMedia (page limit : Option Int)
  | getQuota
  | getMetadata (id : String)
  | getBlobUrl (id : String) (stream : Option String)
  | getThumbnailUrl (id : String) (stream : Option String)
  | share (id : String) (userIds : List String)
  | delete (id : String)
  deriving DecidableEq

/-- A request that has passed the guard; the user is empty where the guard has set none. -/
structure Request where
  authenticatedUserId : String
  endpoint : Endpoint
  deriving DecidableEq

def E2EE_REQUIRED_CONTENT_TYPE : String := "application/octet-stream"

namespace MediaController

def requireUser (userId : String) : Except Err Unit :=
  throwIf (userId = "") (.badRequest "Missing authenticated user")

/-- The conversation of an upload: the header, or else the field of the body. -/
def conversationOf (dto : UploadMediaDto) : Option String :=
  truthy (dto.conversationIdHeader.or dto.conversationId)

def enforceE2EEContentType (conversationId : String) (isE2EE : Bool) (contentType : String) :
    Except Err Unit :=
  throwIf (isE2EE && contentType ≠ E2EE_REQUIRED_CONTENT_TYPE) (.unprocessableEntity <|
    s!"Conversation {conversationId} has E2EE enabled - only application/octet-stream is accepted")

/-- On an E2EE conversation only opaque content is accepted. -/
def enforceConversation (dto : UploadMediaDto) (mimetype : String) : Except Err Unit :=
  match conversationOf dto with
  | some conversationId => enforceE2EEContentType conversationId dto.conversationIsE2EE mimetype
  | none => .ok ()

/-- The call of an upload, once its file and its user are there. -/
def uploadCall (userId : String) (file : File) (dto : UploadMediaDto) : Except Err Call := do
  let ownerId := dto.ownerId.getD userId
  throwIf (ownerId ≠ userId) (.badRequest "ownerId must match the authenticated user")
  let context := dto.context.getD .MESSAGE
  throwIf (context = .MESSAGE && (conversationOf dto).isNone) (.badRequest <|
    "X-Conversation-Id header or conversationId body field required for message uploads")
  enforceConversation dto file.mimetype
  return .upload ownerId file context dto.thumbnail dto.sharedWith

def upload (userId : String) (dto : UploadMediaDto) : Except Err Call :=
  match dto.file with
  | none => .error (.badRequest "No file provided")
  | some file => do
    requireUser userId
    uploadCall userId file dto

/-- `Number.parseInt(raw) || fallback`. -/
def orDefault (raw : Option Int) (fallback : Int) : Int :=
  match raw with
  | none => fallback
  | some n => if n = 0 then fallback else n

def isStream (stream : Option String) : Bool := stream = some "1" || stream = some "true"

/-- The call of the service that an endpoint makes. -/
def route (req : Request) : Except Err Call :=
  let userId := req.authenticatedUserId
  match req.endpoint with
  | .upload dto => upload userId dto
  | .getMyMedia page limit =>
    .ok (.getUserMedia userId (max 1 (orDefault page 1)).toNat
      (min 100 (max 1 (orDefault limit 20))).toNat)
  | .getQuota => .ok (.getUserQuota userId)
  | .getMetadata id => do
    requireUser userId
    return .getMetadata id userId
  | .getBlobUrl id stream => do
    requireUser userId
    return if isStream stream then .streamBlob id userId else .getBlob id userId
  | .getThumbnailUrl id stream => do
    requireUser userId
    return if isStream stream then .streamThumbnail id userId else .getThumbnail id userId
  | .share id userIds => do
    requireUser userId
    return .share id userId userIds
  | .delete id => do
    requireUser userId
    return .delete id userId

/-- A stream that is not there is answered with 404. -/
def respond : Reply → Except Err Reply
  | .thumbnail none => .error (.notFound "No thumbnail stored for this media")
  | reply => .ok reply

def handle (env : Env) (req : Request) : Svc Reply := do
  let call ← sync (route req)
  let reply ← WhisprMedia.handle env call
  sync (respond reply)

end MediaController

/-- A dependency that fails before or after the command has taken effect. -/
structure Fault where
  message : String
  applied : Bool

def Env.execFaulty (env : Env) (fault : Cmd → World → Option Fault) (c : Cmd) (w : World) :
    c.Reply × World :=
  match fault c w with
  | none => env.exec c w
  | some f => (.error f.message, if f.applied then (env.exec c w).2 else w)

/-- What the pool runs: a request, or a call of a cron job or of the background. -/
inductive Task where
  | request (req : Request)
  | call (x : Call)
  deriving DecidableEq

def api (env : Env) (fault : Cmd → World → Option Fault) :
    System Cmd Cmd.Reply World Task Act (Except Err Reply) where
  exec := env.execFaulty fault
  body
    | .request req => (MediaController.handle env req).run
    | .call x => (handle env x).run
  forks
    | .spawnQuotaAlert userId => [.call (.checkAndPublishQuotaAlert userId)]
    | _ => []
  act := Act.apply

end WhisprMedia
