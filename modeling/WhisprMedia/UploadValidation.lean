import WhisprMedia.ServiceRules

/-! Nothing that has not been validated reaches the bucket: the tables of allowed types and of
signatures fit together, and every PUT of an upload comes after the checks of its file. -/
namespace WhisprMedia
open Awaiting MediaService StorageService

/-! Signatures and complete contents -/

/-- The bytes of the entry stand at its offset. -/
def MagicEntry.Matches (entry : MagicEntry) (bytes : Buffer) : Prop :=
  (bytes.drop entry.offset).take entry.bytes.length = entry.bytes

/-- All entries of one signature of the type match. -/
def HasSignatureOf (mime : String) (bytes : Buffer) : Prop :=
  ∃ signatures, MAGIC_MAP.lookup mime = some signatures ∧
    ∃ sig ∈ signatures, ∀ entry ∈ sig, entry.Matches bytes

/-- What matches the header matches the complete bytes. -/
theorem matches_of_header {bytes : Buffer} {entry : MagicEntry} {n : ℕ}
    (h : matchesEntry (bytes.take n) entry = true) : entry.Matches bytes := by
  unfold matchesEntry at h
  split at h
  · exact absurd h (by simp)
  · have hall := List.all_eq_true.mp h
    unfold MagicEntry.Matches
    apply List.ext_getElem?
    intro i
    by_cases hi : i < entry.bytes.length
    · have hmem : (entry.bytes[i], i) ∈ entry.bytes.zipIdx := by
        rw [List.mem_zipIdx_iff_getElem?]
        exact List.getElem?_eq_getElem hi
      have hbyte : (bytes.take n)[entry.offset + i]? = some entry.bytes[i] := by
        simpa using hall _ hmem
      rw [List.getElem?_take_of_lt hi, List.getElem?_drop, List.getElem?_eq_getElem hi, ← hbyte]
      by_cases hn : entry.offset + i < n
      · rw [List.getElem?_take_of_lt hn]
      · rw [List.getElem?_take_eq_none (by omega)] at hbyte
        exact absurd hbyte (by simp)
    · rw [List.getElem?_take_eq_none (by omega), List.getElem?_eq_none (by omega)]

/-- A known type passes the check of the first bytes only with a signature of exactly this type. -/
theorem hasSignature_of_validate {bytes : Buffer} {mime : String} (hn : normaliseMime mime = mime)
    (hknown : (MAGIC_MAP.lookup mime).isSome) (h : validateMagicBytes bytes mime = .ok ()) :
    HasSignatureOf mime bytes := by
  obtain ⟨signatures, hs⟩ := Option.isSome_iff_exists.mp hknown
  unfold validateMagicBytes at h
  dsimp only at h
  rw [hn, hs] at h
  dsimp only at h
  split at h
  · next hany =>
    obtain ⟨sig, hsig, hentries⟩ := List.any_eq_true.mp hany
    refine ⟨signatures, hs, sig, hsig, fun entry hentry => ?_⟩
    exact matches_of_header (List.all_eq_true.mp hentries entry hentry)
  · exact absurd h (by simp)

/-! The tables -/

theorem normaliseMime_of_chars {mime : String}
    (h : (trim (mime.toList.takeWhile (· ≠ ';'))).map jsLower = mime.toList) :
    normaliseMime mime = mime := by
  unfold normaliseMime
  rw [h, String.ofList_toList]

/-- Every allowed type but the opaque one is spelled as the signature map spells it. -/
theorem allowlist_known : ∀ context, ∀ mime ∈ CONTEXT_MIME_ALLOWLIST context,
    mime = "application/octet-stream" ∨
      normaliseMime mime = mime ∧ (MAGIC_MAP.lookup mime).isSome = true := by
  have hchars : ∀ context, ∀ mime ∈ CONTEXT_MIME_ALLOWLIST context,
      mime = "application/octet-stream" ∨
        (trim (mime.toList.takeWhile (· ≠ ';'))).map jsLower = mime.toList ∧
          (MAGIC_MAP.lookup mime).isSome = true := by
    intro context
    cases context <;> decide +kernel
  intro context mime hmime
  exact (hchars context mime hmime).imp id fun h => ⟨normaliseMime_of_chars h.1, h.2⟩

theorem thumbnailTypes_known : ∀ mime ∈ THUMBNAIL_ALLOWED_MIME,
    normaliseMime mime = mime ∧ (MAGIC_MAP.lookup mime).isSome = true := by
  decide +kernel

theorem opaque_only_messages : ∀ context,
    "application/octet-stream" ∈ CONTEXT_MIME_ALLOWLIST context → context = .MESSAGE := by
  intro context
  cases context <;> decide +kernel

/-! Uploads -/

/-- A file as multer's memory storage passes it on. -/
structure MemoryStored (file : File) : Prop where
  stream : file.stream = none
  size : file.size = (fileBuffer file).length

/-- An object that may be stored for a context. -/
structure ValidBlob (context : MediaContext) (object : StoredObject) : Prop where
  contentType : object.contentType ∈ CONTEXT_MIME_ALLOWLIST context
  size : object.body.length ≤ CONTEXT_SIZE_LIMITS context
  contentLength : object.contentLength = object.body.length
  signature : object.contentType = "application/octet-stream" ∧ context = .MESSAGE ∨
    HasSignatureOf object.contentType object.body

/-- An object that may be stored as a thumbnail. -/
structure ValidThumbnail (object : StoredObject) : Prop where
  contentType : object.contentType ∈ THUMBNAIL_ALLOWED_MIME
  size : object.body.length ≤ THUMBNAIL_MAX_BYTES
  contentLength : object.contentLength = object.body.length
  signature : HasSignatureOf object.contentType object.body

/-- The key lies under one of the four prefixes, and the object is valid there. -/
structure ValidPut (key : String) (object : StoredObject) : Prop where
  under : ∃ c, Under c key
  blob : ∀ context, Under (contextToStorageContext context) key → ValidBlob context object
  thumbnail : Under .thumbnails key → ValidThumbnail object

def PutsValid (c : Cmd) : Prop := ∀ key object, c = .putObject key object → ValidPut key object

theorem contextToStorageContext_injective {context context' : MediaContext}
    (h : contextToStorageContext context = contextToStorageContext context') :
    context = context' := by
  cases context <;> cases context' <;> first | rfl | exact absurd h (by decide)

theorem validPut_blob {context : MediaContext} {ownerId objectId key : String}
    {object : StoredObject}
    (hk : buildPath (contextToStorageContext context) ownerId objectId = .ok key)
    (h : ValidBlob context object) : ValidPut key object := by
  have hu := under_of_buildPath hk
  refine ⟨⟨_, hu⟩, fun context' hu' => ?_, fun hu' => ?_⟩
  · exact contextToStorageContext_injective (under_unique hu hu') ▸ h
  · have hc := under_unique hu hu'
    cases context <;> exact absurd hc (by decide)

theorem validPut_thumbnail {ownerId objectId key : String} {object : StoredObject}
    (hk : buildPath .thumbnails ownerId objectId = .ok key) (h : ValidThumbnail object) :
    ValidPut key object := by
  have hu := under_of_buildPath hk
  refine ⟨⟨_, hu⟩, fun context hu' => ?_, fun _ => h⟩
  have hc := under_unique hu hu'
  cases context <;> exact absurd hc (by decide)

section Upload
variable {env : Env} {file : File} {context : MediaContext} {α : Type}

/-- A file that passes has passed the three synchronous checks. -/
theorem validateFile_follows {log : List (Event Cmd Cmd.Reply)} {a : Unit}
    (h : (validateFile env file context).run.Follows log (.pure (.ok a))) :
    enforceContextSizeLimit file.size context = .ok () ∧
      validateMagicBytes (fileBuffer file) file.mimetype = .ok () ∧
      enforceMime file.mimetype context = .ok () := by
  rcases ProgE.follows_of_bind h with ⟨e, -, hr⟩ | ⟨⟨⟩, _, _, -, h₁, h⟩
  · exact absurd hr (by simp)
  rcases ProgE.follows_of_bind h with ⟨e, -, hr⟩ | ⟨⟨⟩, _, _, -, h₂, h⟩
  · exact absurd hr (by simp)
  rcases ProgE.follows_of_bind h with ⟨e, -, hr⟩ | ⟨⟨⟩, _, _, -, h₃, h⟩
  · exact absurd hr (by simp)
  exact ⟨follows_sync h₁, follows_sync h₂, follows_sync h₃⟩

theorem fileObject_eq (hf : MemoryStored file) :
    fileObject file = ⟨fileBuffer file, file.mimetype, (fileBuffer file).length⟩ := by
  unfold fileObject
  rw [hf.stream, hf.size]
  rfl

theorem validBlob_of_checks (hf : MemoryStored file)
    (hsize : enforceContextSizeLimit file.size context = .ok ())
    (hmagic : validateMagicBytes (fileBuffer file) file.mimetype = .ok ())
    (hmime : enforceMime file.mimetype context = .ok ()) : ValidBlob context (fileObject file) := by
  rw [fileObject_eq hf]
  have hmem : file.mimetype ∈ CONTEXT_MIME_ALLOWLIST context := by
    simpa [enforceMime, throwIf_eq_ok] using hmime
  refine ⟨hmem, ?_, rfl, ?_⟩
  · have h : file.size ≤ CONTEXT_SIZE_LIMITS context := by
      simpa [enforceContextSizeLimit, throwIf_eq_ok] using hsize
    exact hf.size ▸ h
  · rcases allowlist_known context _ hmem with ho | ⟨hn, hknown⟩
    · exact Or.inl ⟨ho, opaque_only_messages context (ho ▸ hmem)⟩
    · exact Or.inr (hasSignature_of_validate hn hknown hmagic)

theorem validThumbnail_of_checks (hf : MemoryStored file) (h : validateThumbnail file = .ok ()) :
    ValidThumbnail (fileObject file) := by
  obtain ⟨_, hmagic, h⟩ := bind_eq_ok h
  obtain ⟨_, hmime, hsize⟩ := bind_eq_ok h
  rw [fileObject_eq hf]
  have hmem : file.mimetype ∈ THUMBNAIL_ALLOWED_MIME := by
    simpa [throwIf_eq_ok] using hmime
  obtain ⟨hn, hknown⟩ := thumbnailTypes_known _ hmem
  refine ⟨hmem, ?_, rfl, hasSignature_of_validate hn hknown hmagic⟩
  have hle : file.size ≤ THUMBNAIL_MAX_BYTES := by
    simpa [throwIf_eq_ok] using hsize
  exact hf.size ▸ hle

theorem issues_sync_bind {P : Cmd → Prop} {x : Except Err α} {β : Type} {f : α → Svc β}
    (h : ∀ a, x = .ok a → ProgE.Issues P (f a)) : ProgE.Issues P (sync x >>= f) :=
  ProgE.Issues.bind_of_follows trivial fun a _ hlog => h a (follows_sync hlog)

/-- Commands outside the bucket put nothing. -/
theorem puts_of_family {V : String → StoredObject → Prop} {c : Cmd} (h : c.family ≠ .bucket) :
    ∀ key object, c = .putObject key object → V key object := by
  rintro key object rfl
  exact absurd rfl h

theorem puts_of_touches {V : String → StoredObject → Prop} {F : List Family} {x : Svc α}
    (hx : Touches F x) (hF : .bucket ∉ F) :
    ProgE.Issues (fun c => ∀ key object, c = .putObject key object → V key object) x :=
  ProgE.Issues.mono hx.issues fun _ hc => puts_of_family fun h => hF (h ▸ hc)

theorem issues_put {V : String → StoredObject → Prop} {key : String} {object : StoredObject}
    (h : V key object) :
    ProgE.Issues (fun c => ∀ key object, c = .putObject key object → V key object)
      (await (.putObject key object)) := by
  refine ⟨?_, fun _ => trivial⟩
  rintro key' object' he
  obtain ⟨rfl, rfl⟩ := Cmd.putObject.inj he
  exact h

theorem deleteStored_puts {V : String → StoredObject → Prop} (storagePath : String)
    (thumbnailPath : Option String) :
    ProgE.Issues (fun c => ∀ key object, c = .putObject key object → V key object)
      (deleteStored storagePath thumbnailPath) := by
  have hdelete (path : String) : ProgE.Issues
      (fun c => ∀ key object, c = .putObject key object → V key object) (deleteQuietly path) := by
    refine ProgE.Issues.tryCatch ⟨?_, fun _ => trivial⟩ fun _ => ProgE.issues_pure ()
    rintro key object ⟨⟩
  refine ProgE.Issues.bind (hdelete _) fun _ => ?_
  split
  · exact hdelete _
  · exact ProgE.issues_pure ()

/-- A fresh upload puts its file under a key of its context, and then its thumbnail, once this has
been checked, under a key for thumbnails. -/
theorem storeNew_puts {V : String → StoredObject → Prop} {ownerId : String}
    {thumbnailFile : Option File} {sharedWith : Option (List String)}
    (hfile : ∀ id path, buildPath (contextToStorageContext context) ownerId id = .ok path →
      V path (fileObject file))
    (hthumbnail : ∀ thumbnail ∈ thumbnailFile, validateThumbnail thumbnail = .ok () → ∀ id path,
      buildPath .thumbnails ownerId id = .ok path → V path (fileObject thumbnail)) :
    ProgE.Issues (fun c => ∀ key object, c = .putObject key object → V key object)
      (storeNew env ownerId file context thumbnailFile sharedWith) := by
  refine ProgE.Issues.bind ⟨puts_of_family (by simp [Cmd.family]), fun _ => trivial⟩
    fun id => issues_sync_bind fun path hpath => ?_
  refine ProgE.Issues.bind (issues_put (hfile _ _ hpath)) fun _ => ?_
  refine ProgE.Issues.bind ?_ fun thumbnailPath => ?_
  · cases thumbnailFile with
    | none => exact ProgE.issues_pure none
    | some thumbnail =>
      simp only [storeThumbnail]
      -- the checks stay closed, or every unification would run them
      generalize hchecked : validateThumbnail thumbnail = checked
      refine issues_sync_bind fun _ hchecks => issues_sync_bind fun path hpath => ?_
      have hput := hthumbnail _ rfl (hchecked.trans hchecks) _ _ hpath
      exact ProgE.Issues.bind (issues_put hput) fun _ => ProgE.issues_pure _
  refine ProgE.Issues.bind (puts_of_touches (computeExpiresAt_touches env context)
    (by decide)) fun expiresAt => ProgE.Issues.bind ?_ fun _ => ProgE.issues_pure _
  refine ProgE.Issues.tryCatch ⟨puts_of_family (by simp [Cmd.family]), fun _ => trivial⟩
    fun dbErr => ?_
  exact ProgE.Issues.bind (deleteStored_puts _ _) fun _ => ProgE.issues_throw dbErr

/-- What an upload does once it has checked its file. -/
theorem uploadChecked_puts {V : String → StoredObject → Prop} {ownerId key : String}
    {thumbnailFile : Option File} {sharedWith : Option (List String)}
    (hstore : ProgE.Issues (fun c => ∀ key object, c = .putObject key object → V key object)
      (storeNew env ownerId file context thumbnailFile sharedWith)) :
    ProgE.Issues (fun c => ∀ key object, c = .putObject key object → V key object) (do
      match ← findDuplicate ownerId key with
      | some existing => do
        mergeSharedWith ownerId existing sharedWith
        buildUploadResponse env existing
      | none => do
        let media ← storeNew env ownerId file context thumbnailFile sharedWith
        await (.setDedup key media.id DEDUP_CACHE_TTL_MS)
        QuotaService.recordUpload ownerId (.int file.size)
        buildUploadResponse env media) := by
  refine ProgE.Issues.bind (puts_of_touches (findDuplicate_touches ownerId key) (by decide))
    fun r => ?_
  cases r with
  | some existing =>
    exact ProgE.Issues.bind (puts_of_touches (mergeSharedWith_touches ownerId existing
      sharedWith) (by decide)) fun _ =>
        puts_of_touches (buildUploadResponse_touches env existing) (by decide)
  | none =>
    refine ProgE.Issues.bind hstore fun media => ?_
    refine ProgE.Issues.bind ⟨puts_of_family (by simp [Cmd.family]), fun _ => trivial⟩
      fun _ => ?_
    exact ProgE.Issues.bind (puts_of_touches (QuotaService.recordUpload_touches ownerId _)
      (by decide)) fun _ => puts_of_touches (buildUploadResponse_touches env media) (by decide)

theorem uploadHeld_putsValid {ownerId : String} {thumbnailFile : Option File}
    {sharedWith : Option (List String)} (hf : MemoryStored file)
    (ht : ∀ file ∈ thumbnailFile, MemoryStored file) :
    ProgE.Issues PutsValid (uploadHeld env ownerId file context thumbnailFile sharedWith) := by
  refine ProgE.Issues.bind (puts_of_touches
    (authorizeGroupIconUpload_touches env context ownerId) (by decide)) fun _ => ?_
  refine ProgE.Issues.bind (puts_of_touches (QuotaService.enforceQuota_touches ownerId _)
    (by decide)) fun _ => ?_
  refine ProgE.Issues.bind_of_follows (puts_of_touches
    (validateFile_touches env file context) (by decide)) fun _ log hlog => ?_
  obtain ⟨hsize, hmagic, hmime⟩ := validateFile_follows hlog
  have hblob := validBlob_of_checks hf hsize hmagic hmime
  apply uploadChecked_puts
  apply storeNew_puts
  · intro id path hpath
    exact validPut_blob hpath hblob
  · intro thumbnail hthumbnail hchecks id path hpath
    exact validPut_thumbnail hpath (validThumbnail_of_checks (ht _ hthumbnail) hchecks)

/-- Whatever the commands of an upload are answered, every object it PUTs has been validated for
the prefix of its key. -/
theorem upload_puts_valid (env : Env) (ownerId : String) (file : File) (context : MediaContext)
    (thumbnailFile : Option File) (sharedWith : Option (List String)) (hf : MemoryStored file)
    (ht : ∀ thumbnail ∈ thumbnailFile, MemoryStored thumbnail) :
    (handle env (.upload ownerId file context thumbnailFile sharedWith)).Issues fun c =>
      ∀ key object, c = .putObject key object → ValidPut key object := by
  have hupload : ProgE.Issues PutsValid
      (upload env ownerId file context thumbnailFile sharedWith) := by
    refine ProgE.Issues.bind (puts_of_touches (acquireSemaphore_touches ownerId)
      (by decide)) fun _ => ?_
    exact ProgE.Issues.ensuring (uploadHeld_putsValid hf ht)
      (puts_of_touches (releaseSemaphore_touches ownerId) (by decide))
  exact ProgE.Issues.map hupload

end Upload

/-- A picture of three bytes and a thumbnail of it. -/
theorem upload_puts_valid_of_jpeg : (handle exampleEnv (.upload (exampleId 7)
      ⟨"image/jpeg", 3, some [0xff, 0xd8, 0xff], none⟩ .AVATAR
      (some ⟨"image/gif", 4, some [0x47, 0x49, 0x46, 0x38], none⟩) none)).Issues fun c =>
    ∀ key object, c = .putObject key object → ValidPut key object :=
  upload_puts_valid exampleEnv (exampleId 7) _ _ _ none ⟨rfl, rfl⟩ fun _ h =>
    Option.mem_some_iff.mp h ▸ ⟨rfl, rfl⟩

end WhisprMedia
