import WhisprMedia.MagicBytes
import WhisprMedia.World

/-! The content checks that consult a library or a daemon, and the way services await commands. -/
namespace WhisprMedia
open Awaiting

/-- An `async` function of the service. -/
abbrev Svc (α : Type) := ProgE Cmd Cmd.Reply Err α

/-- Await a command; what it throws is a plain error, none of the HTTP exceptions. -/
def await (c : Cmd) : Svc c.Value := ProgE.issue c fun r => r.mapError Err.error

/-- A synchronous function inside an `async` one. -/
def sync {α : Type} (x : Except Err α) : Svc α := ExceptT.mk (.pure x)

/-- `if (b) throw err;` -/
def throwIf (b : Bool) (err : Err) : Except Err Unit := if b then .error err else .ok ()

/-- `s.includes(t)`. -/
def includes {α : Type} [BEq α] (s t : List α) : Bool := s.tails.any fun u => t.isPrefixOf u

def MAX_PIXELS : Nat := 50000000

def PDF_JS_SCAN_BYTES : Nat := 64 * 1024
def PDF_JS_TOKENS : List String := ["/JS ", "/JavaScript", "/JS\r", "/JS\n", "/JS(", "/JS<"]

def IMAGE_MIME_TYPES : List String :=
  ["image/jpeg", "image/png", "image/gif", "image/webp", "image/heic", "image/heif"]

/-- The limit on `width * height`; an image whose size is unknown passes. -/
def enforceMaxPixels : SharpMetadata → Except Err Unit
  | ⟨some width, some height⟩ =>
    throwIf (width * height > MAX_PIXELS) (.payloadTooLarge
      s!"Image dimensions {width}x{height} ({width * height} px) exceed the {MAX_PIXELS} px limit")
  | _ => .ok ()

def checkImageDimensions (buffer : Buffer) (mimeType : String) : Svc Unit :=
  if !IMAGE_MIME_TYPES.contains (normaliseMime mimeType) then pure ()
  else do
    -- a format that sharp cannot read is let through
    let metadata ← tryCatch (await (.sharpMetadata buffer)) fun _ => pure ⟨none, none⟩
    sync (enforceMaxPixels metadata)

/-- `buffer.toString('latin1')`. -/
def latin1 (buffer : Buffer) : List Char := buffer.map fun b => Char.ofNat b.toNat

def checkPdfJavaScript (buffer : Buffer) (mimeType : String) : Except Err Unit :=
  if normaliseMime mimeType ≠ "application/pdf" then .ok ()
  else
    let slice := latin1 (buffer.take PDF_JS_SCAN_BYTES)
    throwIf (PDF_JS_TOKENS.any fun token => includes slice token.toList)
      (.unprocessableEntity "PDF contains embedded JavaScript which is not permitted")

/-- `result.split(':')[1]?.trim() ?? 'unknown'`. -/
def virusName (result : List Char) : String :=
  match result.dropWhile (· ≠ ':') with
  | [] => "unknown"
  | _ :: rest => String.ofList (trim (rest.takeWhile (· ≠ ':')))

/-- What the answer of clamd says about the file. -/
def enforceNoVirus (result : String) : Except Err Unit :=
  throwIf (includes result.toList "FOUND".toList) (.unprocessableEntity
    s!"File rejected by antivirus scanner: {virusName result.toList}")

def checkClamAv (env : Env) (buffer : Buffer) : Svc Unit :=
  if env.CLAMAV_HOST.getD "" = "" then pure ()
  else
    tryCatch (do
      let result ← await (.sendToClamd buffer)
      sync (enforceNoVirus result))
    fun
      | .unprocessableEntity message => throw (.unprocessableEntity message)
      -- a daemon that cannot be reached lets the upload through
      | _ => pure ()

namespace GroupService

/-- `GROUP_SERVICE_URL` without its last slash. -/
def baseUrl (env : Env) : List Char :=
  let url := (env.GROUP_SERVICE_URL.getD "").toList
  if url.getLast? = some '/' then url.dropLast else url

/-- The members of an answer's body. -/
def members : MembersBody → List GroupMember
  | .list members => members
  | .object members => members.getD []

/-- What an answer says about the caller. -/
def isAdminOf (id : String) (response : GroupServiceAnswer) : Except Err Bool :=
  if response.status = 404 || response.status = 403 then .ok false
  else if !(200 ≤ response.status && response.status ≤ 299) then
    .error (.error s!"group-service returned HTTP {response.status}")
  else .ok ((members response.body).any fun m => m.role = "admin" && m.userId = id)

def isAdmin (env : Env) (id : String) : Svc Bool := do
  sync (throwIf (baseUrl env).isEmpty (.error "GROUP_SERVICE_URL is not configured"))
  let response ← await (.fetchGroupMembers id)
  sync (isAdminOf id response)

end GroupService

end WhisprMedia
