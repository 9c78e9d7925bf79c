import WhisprMedia.SomeAnswers
import WhisprMedia.UploadValidation

/-! The content checks of sharp and clamd. The main file of an upload is only put once they have
let it pass; the thumbnail is put without them. -/
namespace WhisprMedia
open Awaiting MediaService QuotaService StorageService

/-- What sharp and clamd answer about a buffer. -/
structure Scanners where
  sharp : Buffer → Except String SharpMetadata
  clamd : Buffer → Except String String

/-- The event is none of theirs, or has their answer. -/
def Scanners.Agree (s : Scanners) : Event Cmd Cmd.Reply → Prop
  | ⟨.sharpMetadata buffer, r⟩ => r = s.sharp buffer
  | ⟨.sendToClamd buffer, r⟩ => r = s.clamd buffer
  | _ => True

/-- An image that sharp can measure has at most 50 megapixels, and clamd, where one is configured
and answers, has found nothing. -/
structure SafeObject (env : Env) (s : Scanners) (object : StoredObject) : Prop where
  pixels : normaliseMime object.contentType ∈ IMAGE_MIME_TYPES → ∀ width height,
    s.sharp object.body = .ok ⟨some width, some height⟩ → width * height ≤ 50000000
  clean : env.CLAMAV_HOST.getD "" ≠ "" → ∀ answer, s.clamd object.body = .ok answer →
    includes answer.toList "FOUND".toList = false

/-- If sharp and clamd have given their answers so far, the command puts no other object. -/
def PutsSafe (env : Env) (s : Scanners) (log : ServiceLog) (c : Cmd) : Prop :=
  (∀ e ∈ log, s.Agree e) → ∀ key object, c = .putObject key object → SafeObject env s object

/-- What an upload checks of its file before the first PUT, and of its owner. -/
structure Storable (env : Env) (s : Scanners) (ownerId : String) (file : File)
    (context : MediaContext) : Prop where
  size : enforceContextSizeLimit file.size context = .ok ()
  signature : validateMagicBytes (fileBuffer file) file.mimetype = .ok ()
  mime : enforceMime file.mimetype context = .ok ()
  script : checkPdfJavaScript (fileBuffer file) file.mimetype = .ok ()
  safe : SafeObject env s (fileObject file)
  owner : UUID_PATTERN ownerId = true
  groups : context = .GROUP_ICON → (GroupService.baseUrl env).isEmpty = false

section Checks
variable {env : Env} {s : Scanners} {ownerId : String} {file : File} {context : MediaContext}
  {buffer : Buffer} {mimeType : String} {log : ServiceLog} {a : Unit}

/-- An image that passes is one that sharp cannot measure, or that is small enough. -/
theorem checkImageDimensions_follows (hs : ∀ e ∈ log, s.Agree e)
    (h : (checkImageDimensions buffer mimeType).run.Follows log (.pure (.ok a)))
    (himage : normaliseMime mimeType ∈ IMAGE_MIME_TYPES) {width height : ℕ}
    (hsharp : s.sharp buffer = .ok ⟨some width, some height⟩) : width * height ≤ 50000000 := by
  unfold checkImageDimensions at h
  rw [if_neg (by simpa using himage)] at h
  cases h with
  | @step _ _ r log' _ h =>
    have hr : r = s.sharp buffer := hs _ List.mem_cons_self
    rw [hsharp] at hr
    subst hr
    obtain ⟨-, hlimit⟩ := Prog.Follows.of_pure h
    have hlimit' : enforceMaxPixels ⟨some width, some height⟩ = .ok a :=
      (Prog.pure.inj hlimit).symm
    have hpixels := throwIf_eq_ok.mp hlimit'
    simpa [MAX_PIXELS] using hpixels

/-- A file that passes is one about which clamd has not answered, or has found nothing. -/
theorem checkClamAv_follows (hs : ∀ e ∈ log, s.Agree e)
    (h : (checkClamAv env buffer).run.Follows log (.pure (.ok a)))
    (hhost : env.CLAMAV_HOST.getD "" ≠ "") {answer : String}
    (hclamd : s.clamd buffer = .ok answer) : includes answer.toList "FOUND".toList = false := by
  unfold checkClamAv at h
  rw [if_neg hhost] at h
  cases h with
  | @step _ _ r log' _ h =>
    have hr : r = s.clamd buffer := hs _ List.mem_cons_self
    rw [hclamd] at hr
    subst hr
    by_contra hfound
    have hvirus : enforceNoVirus answer = .error (.unprocessableEntity
        s!"File rejected by antivirus scanner: {virusName answer.toList}") := by
      unfold enforceNoVirus
      rw [throwIf, if_pos (by simpa using hfound)]
    -- the answer is judged inside the handler of errors, which throws this one again
    have hjudged : (tryCatch (sync (enforceNoVirus answer)) _ : Svc Unit).run.Follows log'
        (.pure (.ok a)) := h
    rw [hvirus] at hjudged
    cases hjudged

/-- What has let a file pass. -/
theorem validateFile_safe (hf : MemoryStored file) (hs : ∀ e ∈ log, s.Agree e)
    (h : (validateFile env file context).run.Follows log (.pure (.ok a))) :
    checkPdfJavaScript (fileBuffer file) file.mimetype = .ok () ∧
      SafeObject env s (fileObject file) := by
  rcases ProgE.follows_of_bind h with ⟨e, -, hr⟩ | ⟨⟨⟩, _, _, rfl, -, h⟩
  · exact absurd hr (by simp)
  rcases ProgE.follows_of_bind h with ⟨e, -, hr⟩ | ⟨⟨⟩, _, _, rfl, -, h⟩
  · exact absurd hr (by simp)
  rcases ProgE.follows_of_bind h with ⟨e, -, hr⟩ | ⟨⟨⟩, _, _, rfl, -, h⟩
  · exact absurd hr (by simp)
  rcases ProgE.follows_of_bind h with ⟨e, -, hr⟩ | ⟨⟨⟩, _, _, rfl, hpixels, h⟩
  · exact absurd hr (by simp)
  rcases ProgE.follows_of_bind h with ⟨e, -, hr⟩ | ⟨⟨⟩, _, _, rfl, hscript, h⟩
  · exact absurd hr (by simp)
  simp only [List.mem_append, or_imp, forall_and] at hs
  obtain ⟨-, -, -, hdimensions, -, hclean⟩ := hs
  refine ⟨follows_sync hscript, ?_⟩
  rw [fileObject_eq hf]
  exact ⟨fun himage width height hsharp => checkImageDimensions_follows hdimensions hpixels himage
    hsharp, fun hhost answer hclamd => checkClamAv_follows hclean h hhost hclamd⟩

/-- The authorization of a group icon needs the URL of group-service. -/
theorem authorizeGroupIconUpload_follows
    (h : (authorizeGroupIconUpload env context ownerId).run.Follows log (.pure (.ok a)))
    (hc : context = .GROUP_ICON) : (GroupService.baseUrl env).isEmpty = false := by
  by_contra hempty
  have hempty' : (GroupService.baseUrl env).isEmpty = true := by simpa using hempty
  have hmissing : GroupService.isAdmin env ownerId =
      throw (.error "GROUP_SERVICE_URL is not configured") := by
    unfold GroupService.isAdmin
    rw [hempty']
    rfl
  unfold authorizeGroupIconUpload at h
  rw [if_neg (by simp [hc]), hmissing] at h
  cases h

theorem putsSafe_of_issues {α : Type} {x : Svc α} (hx : x.Issues fun c =>
    ∀ key object, c = .putObject key object → SafeObject env s object) :
    x.IssuesAfter (PutsSafe env s) log :=
  hx.after fun _ _ hc _ => hc

/-- A part that does not address the bucket. -/
theorem putsSafe_of_touches {α : Type} {F : List Family} {x : Svc α} (hx : Touches F x)
    (hF : .bucket ∉ F) : x.IssuesAfter (PutsSafe env s) log :=
  putsSafe_of_issues (puts_of_touches (V := fun _ => SafeObject env s) hx hF)

end Checks

section Uploads
variable {env : Env} {s : Scanners} {ownerId : String} {file : File} {context : MediaContext}
  {thumbnailFile : Option File} {sharedWith : Option (List String)} {log : ServiceLog}

/-- Every object that is put is safe, if the thumbnail is. -/
theorem uploadHeld_putsSafe (hf : MemoryStored file)
    (hthumbnail : ∀ thumbnail ∈ thumbnailFile, Storable env s ownerId file context →
      validateThumbnail thumbnail = .ok () → SafeObject env s (fileObject thumbnail)) :
    (uploadHeld env ownerId file context thumbnailFile sharedWith).IssuesAfter
      (PutsSafe env s) log := by
  refine ProgE.IssuesAfter.bind (putsSafe_of_touches
    (authorizeGroupIconUpload_touches env context ownerId) (by decide)) fun _ l₁ hgroup => ?_
  refine ProgE.IssuesAfter.bind (putsSafe_of_touches (enforceQuota_touches ownerId _)
    (by decide)) fun _ l₂ _ => ?_
  refine ProgE.IssuesAfter.bind (putsSafe_of_touches (validateFile_touches env file context)
    (by decide)) fun _ l₃ hvalid => ?_
  obtain ⟨hsize, hmagic, hmime⟩ := validateFile_follows hvalid
  by_cases hs : ∀ e ∈ l₃, s.Agree e
  · obtain ⟨hscript, hsafe⟩ := validateFile_safe hf hs hvalid
    apply putsSafe_of_issues
    apply uploadChecked_puts (V := fun _ => SafeObject env s)
    apply storeNew_puts
    · intro id path hpath
      exact hsafe
    · intro thumbnail ht hchecks id path hpath
      have howner : UUID_PATTERN ownerId = true := by
        by_contra hno
        unfold buildPath at hpath
        rw [if_pos (by simpa using hno)] at hpath
        cases hpath
      exact hthumbnail thumbnail ht ⟨hsize, hmagic, hmime, hscript, hsafe, howner,
        authorizeGroupIconUpload_follows hgroup⟩ hchecks
  · -- sharp or clamd has answered something else already
    apply Prog.issuesAfter_of_forall
    intro l c hagree
    exact absurd (fun e he => hagree e (by simp [he])) hs

/-! A thumbnail that is put -/

theorem canReturn_await (c : Cmd) (v : c.Value) (hA : s.Agree ⟨c, .ok v⟩) :
    ProgE.CanReturn s.Agree (await c) v := ProgE.canReturn_issue hA rfl

theorem canReturn_sync {α : Type} {x : Except Err α} {v : α} (h : x = .ok v) :
    ProgE.CanReturn s.Agree (sync x) v := by
  subst h
  exact ProgE.canReturn_pure

theorem acquireSemaphore_canReturn : ProgE.CanReturn s.Agree (acquireSemaphore ownerId) () :=
  (canReturn_await (.incr (semaphoreKey ownerId)) (1 : Int) trivial).bind
    ((canReturn_await (.expire _ _) () trivial).bind ProgE.canReturn_pure)

theorem authorizeGroupIconUpload_canReturn
    (hgroups : context = .GROUP_ICON → (GroupService.baseUrl env).isEmpty = false) :
    ProgE.CanReturn s.Agree (authorizeGroupIconUpload env context ownerId) () := by
  unfold authorizeGroupIconUpload
  split
  · exact ProgE.canReturn_pure
  · next hc =>
    have hurl := hgroups (by simpa using hc)
    have hadmin : ProgE.CanReturn s.Agree (GroupService.isAdmin env ownerId) true := by
      refine (canReturn_sync (v := ()) (by rw [hurl]; rfl)).bind ?_
      refine (canReturn_await (.fetchGroupMembers ownerId)
        (⟨200, .list [⟨ownerId, "admin"⟩]⟩ : GroupServiceAnswer) trivial).bind (canReturn_sync ?_)
      simp [GroupService.isAdminOf, GroupService.members]
    exact hadmin.tryCatch.bind (canReturn_sync rfl)

/-- A user without uploads has room for a file of any context. -/
theorem enforceQuota_canReturn (hsize : enforceContextSizeLimit file.size context = .ok ()) :
    ProgE.CanReturn s.Agree (enforceQuota ownerId (.int file.size)) () := by
  have hlimit : file.size ≤ CONTEXT_SIZE_LIMITS context := by
    simpa [enforceContextSizeLimit, throwIf_eq_ok] using hsize
  have hle : file.size ≤ 104857600 := by
    refine Nat.le_trans hlimit ?_
    cases context <;> decide
  -- the cache may answer with the quota of a new user
  let quota : UserQuota := ⟨"", ownerId, 0, DEFAULT_STORAGE_LIMIT_BYTES, 0, DEFAULT_FILES_LIMIT, 0,
    DEFAULT_DAILY_UPLOAD_LIMIT, 0⟩
  have hvalid : validateBlobSize (.int file.size) = .ok () := by
    apply throwIf_eq_ok.mpr
    have hsafe : (-MAX_SAFE_INTEGER ≤ (file.size : ℤ) ∧ (file.size : ℤ) ≤ MAX_SAFE_INTEGER) ∧
        ¬ (file.size : ℤ) < 0 := by
      unfold MAX_SAFE_INTEGER
      omega
    simp [JsNumber.isSafeInteger, JsNumber.isNegative, hsafe]
  have hroom : exceeded quota file.size = none := by
    have hbytes : ¬ quota.storageUsed + file.size > quota.storageLimit := by
      show ¬ (0 : ℤ) + file.size > 1073741824
      omega
    have hfiles : ¬ quota.filesCount ≥ quota.filesLimit := by
      show ¬ (0 : ℤ) ≥ 1000
      decide
    have hdaily : ¬ quota.dailyUploads ≥ quota.dailyUploadLimit := by
      show ¬ (0 : ℤ) ≥ 100
      decide
    unfold exceeded
    rw [if_neg hbytes, if_neg hfiles, if_neg hdaily]
  have hread : ProgE.CanReturn s.Agree (getOrCreateQuota ownerId) quota := by
    refine (canReturn_await (.getQuota (cacheKey ownerId)) (some (toCached quota))
      trivial).tryCatch.bind ?_
    exact canReturn_sync (ofCached_toCached quota)
  have hcheck : ProgE.CanReturn s.Agree (checkQuota ownerId (.int file.size))
      (checkResult quota file.size) :=
    (canReturn_sync hvalid).bind (hread.bind ProgE.canReturn_pure)
  refine hcheck.bind (canReturn_sync ?_)
  simp [checkResult, hroom, throwIf]

theorem checkImageDimensions_canReturn (hf : MemoryStored file)
    (hsafe : SafeObject env s (fileObject file)) :
    ProgE.CanReturn s.Agree (checkImageDimensions (fileBuffer file) file.mimetype) () := by
  rw [fileObject_eq hf] at hsafe
  unfold checkImageDimensions
  split
  · exact ProgE.canReturn_pure
  · next himage =>
    have hread : ∃ m, ProgE.CanReturn s.Agree (tryCatch (await (.sharpMetadata (fileBuffer file)))
        fun _ => pure ⟨none, none⟩) m ∧ enforceMaxPixels m = .ok () := by
      cases hsharp : s.sharp (fileBuffer file) with
      | error e =>
        refine ⟨⟨none, none⟩, ⟨[⟨.sharpMetadata (fileBuffer file), .error e⟩], ?_, ?_⟩, rfl⟩
        · intro e' he'
          rw [List.mem_singleton.mp he']
          exact hsharp.symm
        · exact .step (.done _)
      | ok m =>
        refine ⟨m, (canReturn_await (.sharpMetadata _) m hsharp.symm).tryCatch, ?_⟩
        unfold enforceMaxPixels
        split
        · next width height =>
          have hle := hsafe.pixels (by simpa using himage) _ _ hsharp
          apply throwIf_eq_ok.mpr
          simpa [MAX_PIXELS] using hle
        · rfl
    obtain ⟨m, hm, hlimit⟩ := hread
    exact hm.bind (canReturn_sync hlimit)

theorem checkClamAv_canReturn (hf : MemoryStored file)
    (hsafe : SafeObject env s (fileObject file)) :
    ProgE.CanReturn s.Agree (checkClamAv env (fileBuffer file)) () := by
  rw [fileObject_eq hf] at hsafe
  unfold checkClamAv
  split
  · exact ProgE.canReturn_pure
  · next hhost =>
    cases hclamd : s.clamd (fileBuffer file) with
    | error e =>
      refine ⟨[⟨.sendToClamd (fileBuffer file), .error e⟩], ?_, .step (.done _)⟩
      intro e' he'
      rw [List.mem_singleton.mp he']
      exact hclamd.symm
    | ok answer =>
      have hclean := hsafe.clean hhost answer hclamd
      refine ((canReturn_await (.sendToClamd _) answer hclamd.symm).bind (canReturn_sync ?_)).tryCatch
      exact throwIf_eq_ok.mpr hclean

theorem validateFile_canReturn (hf : MemoryStored file)
    (h : Storable env s ownerId file context) :
    ProgE.CanReturn s.Agree (validateFile env file context) () :=
  (canReturn_sync h.size).bind <| (canReturn_sync h.signature).bind <|
    (canReturn_sync h.mime).bind <| (checkImageDimensions_canReturn hf h.safe).bind <|
      (canReturn_sync h.script).bind (checkClamAv_canReturn hf h.safe)

theorem buildPath_ok (c : StorageContext) {id : String} (howner : UUID_PATTERN ownerId = true)
    (hid : UUID_PATTERN id = true) : ∃ path, buildPath c ownerId id = .ok path := by
  cases c <;> simp [buildPath, howner, hid]

/-- With favourable answers a thumbnail that passes its own checks is put. -/
theorem upload_puts_thumbnail {thumbnail : File} (hf : MemoryStored file)
    (h : Storable env s ownerId file context) (ht : validateThumbnail thumbnail = .ok ()) :
    ∃ path, ProgE.CanIssue s.Agree (upload env ownerId file context (some thumbnail) sharedWith)
      (.putObject path (fileObject thumbnail)) := by
  have hid := env.randomUUID_pattern 0
  obtain ⟨storagePath, hstore⟩ := buildPath_ok (contextToStorageContext context) h.owner hid
  obtain ⟨path, hpath⟩ := buildPath_ok .thumbnails h.owner hid
  have hthumbnail : ProgE.CanIssue s.Agree (storeThumbnail ownerId (env.randomUUID 0)
      (some thumbnail)) (.putObject path (fileObject thumbnail)) :=
    (canReturn_sync ht).bind_issue <| (canReturn_sync hpath).bind_issue ProgE.canIssue_issue.bind
  have hnew : ProgE.CanIssue s.Agree (storeNew env ownerId file context (some thumbnail) sharedWith)
      (.putObject path (fileObject thumbnail)) :=
    (canReturn_await .randomUUID (env.randomUUID 0) trivial).bind_issue <|
      (canReturn_sync hstore).bind_issue <|
        (canReturn_await (.putObject _ _) () trivial).bind_issue hthumbnail.bind
  have hfresh : ProgE.CanReturn s.Agree (findDuplicate ownerId
      (dedupKey ownerId context (env.sha256 (fileBuffer file)))) none :=
    (canReturn_await (.getDedup _) (none : Option String) trivial).bind ProgE.canReturn_pure
  have hheld : ProgE.CanIssue s.Agree (uploadHeld env ownerId file context (some thumbnail)
      sharedWith) (.putObject path (fileObject thumbnail)) :=
    (authorizeGroupIconUpload_canReturn h.groups).bind_issue <|
      (enforceQuota_canReturn h.size).bind_issue <|
        (validateFile_canReturn hf h).bind_issue <| hfresh.bind_issue hnew.bind
  exact ⟨path, acquireSemaphore_canReturn.bind_issue hheld.ensuring⟩

/-- Every object that an upload puts is safe exactly if its thumbnail, where the upload comes to
it, is safe by itself. -/
theorem upload_puts_safe (env : Env) (s : Scanners) (ownerId : String) (file : File)
    (context : MediaContext) (thumbnailFile : Option File) (sharedWith : Option (List String))
    (hf : MemoryStored file) :
    (handle env (.upload ownerId file context thumbnailFile sharedWith)).IssuesAfter
        (PutsSafe env s) [] ↔
      ∀ thumbnail ∈ thumbnailFile, Storable env s ownerId file context →
        validateThumbnail thumbnail = .ok () → SafeObject env s (fileObject thumbnail) := by
  constructor
  · intro h thumbnail ht hstorable hchecks
    obtain rfl := Option.mem_def.mp ht
    obtain ⟨path, hissue⟩ := @upload_puts_thumbnail env s ownerId file context sharedWith thumbnail
      hf hstorable hchecks
    obtain ⟨log, hagree, hput⟩ := h.of_canIssue hissue.map
    exact hput hagree path _ rfl
  · intro h
    refine ProgE.IssuesAfter.map ?_
    refine ProgE.IssuesAfter.bind (putsSafe_of_touches (acquireSemaphore_touches ownerId)
      (by decide)) fun _ _ _ => ?_
    exact ProgE.IssuesAfter.ensuring (uploadHeld_putsSafe hf h) fun _ =>
      putsSafe_of_touches (releaseSemaphore_touches ownerId) (by decide)

end Uploads

/-! A thumbnail of a hundred megapixels -/

/-- The header of a GIF of 10000 by 10000 pixels. -/
def largeGif : File :=
  ⟨"image/gif", 10, some [0x47, 0x49, 0x46, 0x38, 0x39, 0x61, 0x10, 0x27, 0x10, 0x27], none⟩

def smallJpeg : File := ⟨"image/jpeg", 3, some [0xff, 0xd8, 0xff], none⟩

/-- sharp reads the header, and takes everything else for a picture of one pixel. -/
def headerScanners : Scanners where
  sharp buffer := .ok (if buffer = fileBuffer largeGif then ⟨some 10000, some 10000⟩
    else ⟨some 1, some 1⟩)
  clamd _ := .ok "stream: OK"

theorem smallJpeg_safe : SafeObject exampleEnv headerScanners (fileObject smallJpeg) := by
  refine ⟨fun _ width height h => ?_, fun h => absurd rfl h⟩
  have hone : headerScanners.sharp (fileObject smallJpeg).body = .ok ⟨some 1, some 1⟩ :=
    congrArg Except.ok (if_neg (by decide))
  obtain ⟨rfl, rfl⟩ : 1 = width ∧ 1 = height := by simpa using hone.symm.trans h
  decide

theorem smallJpeg_storable :
    Storable exampleEnv headerScanners (exampleId 7) smallJpeg .AVATAR := by
  refine ⟨by decide +kernel, by decide +kernel, by decide +kernel, by decide +kernel,
    smallJpeg_safe, exampleId_pattern 7, fun h => ?_⟩
  exact absurd h (by decide)

/-- A small picture with itself as the thumbnail, which is put. -/
theorem upload_puts_safe_of_jpeg :
    (∃ path, (handle exampleEnv (.upload (exampleId 7) smallJpeg .AVATAR (some smallJpeg)
      none)).CanIssue headerScanners.Agree (.putObject path (fileObject smallJpeg))) ∧
    (handle exampleEnv (.upload (exampleId 7) smallJpeg .AVATAR (some smallJpeg) none)).IssuesAfter
      (PutsSafe exampleEnv headerScanners) [] := by
  obtain ⟨path, hissue⟩ := @upload_puts_thumbnail exampleEnv headerScanners (exampleId 7) smallJpeg
    .AVATAR none smallJpeg ⟨rfl, rfl⟩ smallJpeg_storable (by decide +kernel)
  exact ⟨⟨path, hissue.map⟩, (upload_puts_safe exampleEnv headerScanners (exampleId 7) smallJpeg
    .AVATAR (some smallJpeg) none ⟨rfl, rfl⟩).mpr fun _ ht _ _ =>
      Option.mem_some_iff.mp ht ▸ smallJpeg_safe⟩

/-- The large picture is put as the thumbnail of the small one. -/
theorem largeGif_put : ¬ (handle exampleEnv (.upload (exampleId 7) smallJpeg .AVATAR
    (some largeGif) none)).IssuesAfter (PutsSafe exampleEnv headerScanners) [] := by
  intro h
  obtain ⟨path, hissue⟩ := @upload_puts_thumbnail exampleEnv headerScanners (exampleId 7) smallJpeg
    .AVATAR none largeGif ⟨rfl, rfl⟩ smallJpeg_storable (by decide +kernel)
  obtain ⟨log, hagree, hput⟩ := h.of_canIssue hissue.map
  have hpixels := (hput hagree path _ rfl).pixels (by decide +kernel) 10000 10000
    (congrArg Except.ok (if_pos rfl))
  exact absurd hpixels (by decide)

end WhisprMedia
