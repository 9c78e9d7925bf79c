import WhisprMedia.Entities

/-! Declared MIME types against the first bytes of the content. -/
namespace WhisprMedia

/-- White space and line terminators in the sense of `String.prototype.trim`. -/
def isJsSpace (c : Char) : Bool :=
  let n := c.toNat
  (9 ≤ n && n ≤ 13) || n = 0x20 || n = 0xA0 || n = 0x1680 || (0x2000 ≤ n && n ≤ 0x200A) ||
    n = 0x2028 || n = 0x2029 || n = 0x202F || n = 0x205F || n = 0x3000 || n = 0xFEFF

def trim (s : List Char) : List Char :=
  ((s.dropWhile isJsSpace).reverse.dropWhile isJsSpace).reverse

/-- `toLowerCase`, as far as its result can be an ASCII letter; U+212A is the Kelvin sign. -/
def jsLower (c : Char) : Char := if c.toNat = 0x212A then 'k' else c.toLower

/-- `declaredMimeType.split(';')[0].trim().toLowerCase()`. -/
def normaliseMime (declaredMimeType : String) : String :=
  String.ofList ((trim (declaredMimeType.toList.takeWhile (· ≠ ';'))).map jsLower)

structure MagicEntry where
  bytes : List UInt8
  offset : Nat := 0

/-- Entries that must all match. -/
abbrev MagicSignature := List MagicEntry

/-- The signatures of each known type; one of them has to match. -/
def MAGIC_MAP : List (String × List MagicSignature) := [
  ("image/jpeg", [[{ bytes := [0xff, 0xd8, 0xff] }]]),
  ("image/png", [[{ bytes := [0x89, 0x50, 0x4e, 0x47, 0x0d, 0x0a, 0x1a, 0x0a] }]]),
  ("image/gif", [[{ bytes := [0x47, 0x49, 0x46, 0x38] }]]),
  -- RIFF and WEBP
  ("image/webp", [[{ bytes := [0x52, 0x49, 0x46, 0x46], offset := 0 },
    { bytes := [0x57, 0x45, 0x42, 0x50], offset := 8 }]]),
  -- brands heic, heix, hevc
  ("image/heic", [
    [{ bytes := [0x66, 0x74, 0x79, 0x70, 0x68, 0x65, 0x69, 0x63], offset := 4 }],
    [{ bytes := [0x66, 0x74, 0x79, 0x70, 0x68, 0x65, 0x69, 0x78], offset := 4 }],
    [{ bytes := [0x66, 0x74, 0x79, 0x70, 0x68, 0x65, 0x76, 0x63], offset := 4 }]]),
  -- brands mif1, msf1
  ("image/heif", [
    [{ bytes := [0x66, 0x74, 0x79, 0x70, 0x6d, 0x69, 0x66, 0x31], offset := 4 }],
    [{ bytes := [0x66, 0x74, 0x79, 0x70, 0x6d, 0x73, 0x66, 0x31], offset := 4 }]]),
  ("video/mp4", [[{ bytes := [0x66, 0x74, 0x79, 0x70], offset := 4 }]]),
  ("video/quicktime", [[{ bytes := [0x66, 0x74, 0x79, 0x70, 0x71, 0x74], offset := 4 }]]),
  ("video/webm", [[{ bytes := [0x1a, 0x45, 0xdf, 0xa3] }]]),
  ("video/x-matroska", [[{ bytes := [0x1a, 0x45, 0xdf, 0xa3] }]]),
  ("audio/mpeg", [
    [{ bytes := [0xff, 0xfb] }],
    [{ bytes := [0xff, 0xf3] }],
    [{ bytes := [0xff, 0xf2] }],
    [{ bytes := [0x49, 0x44, 0x33] }]]),
  ("audio/ogg", [[{ bytes := [0x4f, 0x67, 0x67, 0x53] }]]),
  -- RIFF and WAVE
  ("audio/wav", [[{ bytes := [0x52, 0x49, 0x46, 0x46], offset := 0 },
    { bytes := [0x57, 0x41, 0x56, 0x45], offset := 8 }]]),
  ("audio/mp4", [[{ bytes := [0x66, 0x74, 0x79, 0x70], offset := 4 }]]),
  ("audio/aac", [[{ bytes := [0xff, 0xf1] }], [{ bytes := [0xff, 0xf9] }]]),
  ("application/pdf", [[{ bytes := [0x25, 0x50, 0x44, 0x46] }]]),
  ("application/msword", [[{ bytes := [0xd0, 0xcf, 0x11, 0xe0, 0xa1, 0xb1, 0x1a, 0xe1] }]]),
  ("application/vnd.openxmlformats-officedocument.wordprocessingml.document",
    [[{ bytes := [0x50, 0x4b, 0x03, 0x04] }]]),
  ("application/vnd.openxmlformats-officedocument.spreadsheetml.sheet",
    [[{ bytes := [0x50, 0x4b, 0x03, 0x04] }]]),
  ("application/vnd.openxmlformats-officedocument.presentationml.presentation",
    [[{ bytes := [0x50, 0x4b, 0x03, 0x04] }]]),
  ("application/zip", [[{ bytes := [0x50, 0x4b, 0x03, 0x04] }]])]

/-- Number of bytes needed to check all signatures. -/
def MAX_MAGIC_BYTES : Nat := 16

def matchesEntry (header : Buffer) (entry : MagicEntry) : Bool :=
  if header.length < entry.offset + entry.bytes.length then false
  else entry.bytes.zipIdx.all fun b => header[entry.offset + b.2]? = some b.1

/-- Keys that the map, an object literal, inherits and that survive `toLowerCase`: their value
is no array, so `signatures.some` throws. -/
def INHERITED_KEYS : List String := ["constructor", "__proto__"]

def validateMagicBytes (buffer : Buffer) (declaredMimeType : String) : Except Err Unit :=
  let mime := normaliseMime declaredMimeType
  match MAGIC_MAP.lookup mime with
  | none =>
    if INHERITED_KEYS.contains mime then .error (.error "signatures.some is not a function")
    else .ok ()
  | some signatures =>
    let header := buffer.take MAX_MAGIC_BYTES
    if signatures.any fun sig => sig.all fun entry => matchesEntry header entry then .ok ()
    else .error (.unsupportedMediaType
      s!"Content-Type '{mime}' does not match the actual file content")

end WhisprMedia
