import WhisprMedia.StoredMedia
import WhisprMedia.UploadValidation

/-! Deduplication returns the right media. The upload trusts the id that it finds in the cache;
that it may do so is an invariant of entries, rows and objects. -/
namespace WhisprMedia
open Awaiting Keyed MediaService StorageService

/-- The object under the main key of a row holds these bytes. -/
def HoldsBytes (w : World) (m : Media) (bytes : Buffer) : Prop :=
  ∃ object, w.bucket m.storagePath = some object ∧ object.body = bytes

/-- Rows are placed, and a dedup entry for a digest leads to a row of its user and context; while
the row is active, its object has the digest. The contents that are uploaded satisfy `B`. -/
structure DedupRight (env : Env) (B : Buffer → Prop) (w : World) : Prop extends
    RowsPlaced env w where
  entries : ∀ ownerId context digest id,
    w.dedupCache (dedupKey ownerId context digest) = some id →
      ∃ m, w.media.get id = some m ∧ env.uuidIn ownerId = some m.ownerId ∧
        m.context = context.value ∧ (m.isActive = true → ∃ bytes, B bytes ∧
          digest = env.sha256 bytes ∧ m.blobSize = bytes.length ∧ HoldsBytes w m bytes)

section Invariant
variable {env : Env} {B : Buffer → Prop} {w w' : World}

theorem dedupRight_empty : DedupRight env B World.empty :=
  ⟨rowsPlaced_empty env, fun _ _ _ _ h => absurd h (by simp [World.empty])⟩

/-- Worlds that agree on the cores of rows and on objects, with fewer entries. -/
theorem DedupRight.kept (h : DedupRight env B w) (hcanon : RowsCanonical env w')
    (hmedia : ∀ k, (w'.media.get k).map Media.core = (w.media.get k).map Media.core)
    (hbucket : w'.bucket = w.bucket)
    (hdedup : ∀ key id, w'.dedupCache key = some id → w.dedupCache key = some id)
    (hdrawn : w.drawn ≤ w'.drawn) : DedupRight env B w' := by
  refine ⟨h.toRowsPlaced.kept hcanon hmedia hdrawn, fun o c d id hid => ?_⟩
  obtain ⟨m, hm, ho, hc, hact⟩ := h.entries o c d id (hdedup _ _ hid)
  have hk := hmedia id
  rw [hm, Option.map_some, Option.map_eq_some_iff] at hk
  obtain ⟨m', hm', hcore⟩ := hk
  obtain ⟨-, howner, hctx, hpath, -, -, hsize, -, hactive⟩ := Media.core_eq hcore.symm
  refine ⟨m', hm', by rw [howner, ho], by rw [hctx, hc], fun ha => ?_⟩
  obtain ⟨bytes, hB, hd, hs, object, hobj, hbody⟩ := hact (hactive ▸ ha)
  refine ⟨bytes, hB, hd, hsize ▸ hs, object, ?_, hbody⟩
  rw [hbucket, hpath, hobj]

theorem DedupRight.quiet (h : DedupRight env B w) (hq : Quiet w w')
    (hcanon : RowsCanonical env w') : DedupRight env B w' :=
  h.kept hcanon hq.media hq.bucket (fun _ _ hid => hq.dedup ▸ hid) hq.drawn

theorem DedupRight.orphaned (h : DedupRight env B w) (ho : Orphaned env w w')
    (hcanon : RowsCanonical env w') (hu : env.DrawsApart w'.drawn) : DedupRight env B w' := by
  obtain ⟨id, hid, hbucket⟩ := ho.bucket
  refine ⟨h.toRowsPlaced.orphaned ho hcanon, fun o c d i hi => ?_⟩
  rw [ho.dedup] at hi
  obtain ⟨m, hm, howner, hc, hact⟩ := h.entries o c d i hi
  refine ⟨m, by rw [ho.media, hm], howner, hc, fun ha => ?_⟩
  obtain ⟨bytes, hB, hd, hs, object, hobj, hbody⟩ := hact ha
  refine ⟨bytes, hB, hd, hs, object, ?_, hbody⟩
  rw [hbucket _ (h.not_path hm (Or.inl rfl) hid hu), hobj]

section Uploads
variable {ownerId : String} {file : File} {context : MediaContext} {thumbnailFile : Option File}
  {m : Media}

/-- The object of a new upload is its file. -/
theorem Stored.holds (hs : Stored env ownerId file context thumbnailFile w w' m)
    (hf : MemoryStored file) : HoldsBytes w' m (fileBuffer file) := by
  refine ⟨fileObject file, ?_, by rw [fileObject_eq hf]⟩
  rw [hs.bucket]
  refine putAll_main fun p hp => ?_
  rcases hs.row.thumbnailPath with ⟨-, hn⟩ | ⟨p', -, hp', hbuild⟩
  · exact absurd (hn.symm.trans hp) (by simp)
  · obtain rfl := Option.some.inj (hp'.symm.trans hp)
    exact buildPath_thumbnails_ne (contextToStorageContext_ne context) hs.row.storagePath hbuild

theorem DedupRight.stored (h : DedupRight env B w)
    (hs : Stored env ownerId file context thumbnailFile w w' m) (hf : MemoryStored file)
    (hB : B (fileBuffer file)) (hcanon : RowsCanonical env w') (hu : env.DrawsApart w'.drawn) :
    DedupRight env B w' := by
  refine ⟨h.toRowsPlaced.stored hs hcanon, fun o c d i hi => ?_⟩
  rcases hs.entry hi with ⟨rfl, rfl, rfl, rfl⟩ | hold
  · -- the entry of this upload leads to its row
    refine ⟨m, by rw [hs.get, if_pos rfl], hs.row.owner, hs.row.inContext, fun _ => ?_⟩
    exact ⟨fileBuffer file, hB, rfl, hs.row.blobSize.trans hf.size, hs.holds hf⟩
  · -- an older entry leads to an older row, whose keys are not written
    obtain ⟨m', hm', ho, hc, hact⟩ := h.entries o c d i hold
    refine ⟨m', hs.old_row hm', ho, hc, fun ha => ?_⟩
    obtain ⟨bytes, hB', hd, hsize, object, hobj, hbody⟩ := hact ha
    refine ⟨bytes, hB', hd, hsize, object, ?_, hbody⟩
    rw [hs.bucket_other (h.not_path hm' (Or.inl rfl) hs.id hu), hobj]

end Uploads

theorem DedupRight.removed (h : DedupRight env B w) {m : Media} (hr : Removed w w' m)
    (hrow : w.media.get m.id = some m) (hcanon : RowsCanonical env w') : DedupRight env B w' := by
  refine ⟨h.toRowsPlaced.removed hr hrow hcanon, fun o c d i hi => ?_⟩
  rw [hr.dedup] at hi
  obtain ⟨m', hm', ho, hc, hact⟩ := h.entries o c d i hi
  by_cases hk : i = m.id
  · rw [hk, hrow] at hm'
    obtain rfl := Option.some.inj hm'
    have hgone := (hr.media i).trans (if_pos hk)
    exact ⟨_, hgone, ho, hc, fun ha => Bool.noConfusion ha⟩
  · refine ⟨m', by rw [hr.media, if_neg hk, hm'], ho, hc, fun ha => ?_⟩
    obtain ⟨bytes, hB, hd, hsize, object, hobj, hbody⟩ := hact ha
    refine ⟨bytes, hB, hd, hsize, object, ?_, hbody⟩
    rw [h.removed_bucket hr hrow hm' hk (Or.inl rfl), hobj]

end Invariant

/-! Serial runs -/

/-- What may happen: uploads of contents in `B` that multer has buffered, deletes, and requests
that are quiet; the surroundings act at any time. -/
def DedupSteps (B : Buffer → Prop) (_ : World) : Label Call Act → Prop
  | .call (.upload _ file _ _ _) => MemoryStored file ∧ B (fileBuffer file)
  | .call (.delete _ _) => True
  | .call x => x.quiet = true
  | .act _ => True
  | .step _ => False

/-- The id names an active row of the owner and context, whose object holds the file. -/
def RightMedia (env : Env) (ownerId : String) (file : File) (context : MediaContext) (id : String)
    (w : World) : Prop :=
  ∃ m, w.media.get id = some m ∧ m.isActive = true ∧ env.uuidIn ownerId = some m.ownerId ∧
    m.context = context.value ∧ m.blobSize = file.size ∧ HoldsBytes w m (fileBuffer file)

section Runs
variable {env : Env} {B : Buffer → Prop} {w : World}

/-- What an answered upload says of the media it names. -/
def Answered.Right (env : Env) (s : ServiceServed) : Prop :=
  ∀ ownerId file context thumbnailFile sharedWith dto,
    s.call = .upload ownerId file context thumbnailFile sharedWith →
    s.done.result = .ok (.uploaded dto) →
      RightMedia env ownerId file context dto.media_id s.done.world ∧
      ∀ id m, s.before.dedupCache (uploadKey env ownerId file context) = some id →
        s.before.media.get id = some m → m.isActive = true →
          dto.media_id = id ∧ Quiet s.before s.done.world

/-- An entry that leads to an active row is found by its user. -/
theorem DedupRight.found (h : DedupRight env B w) {ownerId id : String} {context : MediaContext}
    {digest : List (Fin 16)} {m : Media}
    (hid : w.dedupCache (dedupKey ownerId context digest) = some id)
    (hm : w.media.get id = some m) (hact : m.isActive = true) :
    duplicateOf env w ownerId (dedupKey ownerId context digest) = some m := by
  obtain ⟨m', hm', ho, -⟩ := h.entries _ _ _ _ hid
  obtain rfl := Option.some.inj (hm.symm.trans hm')
  obtain rfl := media_id hm
  have hne : m.id ≠ "" := by
    obtain ⟨n, -, he⟩ := h.drawn _ _ hm
    intro hempty
    have hlen := uuid_length (env.randomUUID_pattern n)
    rw [← he, hempty] at hlen
    exact absurd hlen (by decide)
  have hcanon := (h.canonical _ _ hm).id
  have hsel : rlsSelect m.ownerId m = true := by simp [rlsSelect]
  have hlive : ((w.media.get m.id).filter fun m' => m'.isActive && rlsSelect m.ownerId m') =
      some m := by rw [hm, Option.filter_some, if_pos (by rw [hact, hsel]; rfl)]
  have hsome : truthy (some m.id) = some m.id := by
    rw [truthy, Option.filter_some, if_pos (by simpa using hne)]
  simp only [duplicateOf, hid, hsome, ho, hcanon, Option.bind_eq_bind, Option.bind_some, hlive]

theorem upload_right (h : DedupRight env B w)
    (hsha : ∀ a b, B a → B b → env.sha256 a = env.sha256 b → a = b) {ownerId : String}
    {file : File} {context : MediaContext} {thumbnailFile : Option File} {w' : World}
    {dto : UploadMediaResponseDto}
    (hd : UploadDone env ownerId file context thumbnailFile w (.ok dto) w')
    (hf : MemoryStored file) (hB : B (fileBuffer file)) :
    RightMedia env ownerId file context dto.media_id w' ∧
      ∀ id m, w.dedupCache (uploadKey env ownerId file context) = some id →
        w.media.get id = some m → m.isActive = true → dto.media_id = id ∧ Quiet w w' := by
  cases hd with
  | reused m found kept answer =>
    constructor
    · obtain ⟨id, hid, hget, hact, hsame⟩ := h.canonical.duplicate found
      obtain ⟨m₀, hm₀, ho, hc, hcontent⟩ := h.entries _ _ _ _ hid
      obtain ⟨rfl, rfl⟩ := hsame m₀ hm₀
      obtain ⟨bytes, hB', hdigest, hsize, object, hobj, hbody⟩ := hcontent hact
      obtain rfl := hsha _ _ hB hB' hdigest
      obtain ⟨m', hm', hcore⟩ := kept.get hget
      obtain ⟨-, howner, hctx, hpath, -, -, hblob, -, hactive⟩ := Media.core_eq hcore.symm
      refine ⟨m', answer ▸ hm', hactive.trans hact, by rw [howner, ho], by rw [hctx, hc], ?_, ?_⟩
      · rw [hblob, hsize, hf.size]
      · exact ⟨object, by rw [kept.bucket, hpath, hobj], hbody⟩
    · intro id m' hid hm' hact
      have hdup := h.found hid hm' hact
      obtain rfl := Option.some.inj (found.symm.trans hdup)
      exact ⟨answer.trans (media_id hm'), kept⟩
  | stored m missed hs charged answer =>
    constructor
    · refine ⟨m, answer ▸ (hs.get _).trans (if_pos rfl), hs.row.isActive, hs.row.owner,
        hs.row.inContext, hs.row.blobSize, hs.holds hf⟩
    · intro id m' hid hm' hact
      exact absurd (missed.symm.trans (h.found hid hm' hact)) (by simp)

/-- One call keeps the invariant, and if it is an upload, its answer is right. -/
theorem serve_right (h : DedupRight env B w)
    (hsha : ∀ a b, B a → B b → env.sha256 a = env.sha256 b → a = b) {x : Call}
    (hx : DedupSteps B w (.call x)) (hu : env.DrawsApart ((service env).serve x w).world.drawn) :
    DedupRight env B ((service env).serve x w).world ∧
      Answered.Right env ⟨x, w, (service env).serve x w⟩ := by
  have hcanon := canonical_serve x h.canonical
  have hquiet (hq : x.quiet = true) : DedupRight env B ((service env).serve x w).world ∧
      Answered.Right env ⟨x, w, (service env).serve x w⟩ := by
    refine ⟨h.quiet (serve_quiet hq) hcanon, ?_⟩
    rintro o f c t s dto rfl
    exact absurd hq (by simp [Call.quiet])
  cases x with
  -- only an upload stores an entry, and only an upload has to answer for one
  | upload o f c t s =>
    obtain ⟨hf, hB⟩ := hx
    obtain ⟨r, hd, hr⟩ := @serve_upload env o f c t s w
    constructor
    · cases hd with
      | refused kept => exact h.quiet kept hcanon
      | reused m found kept answer => exact h.quiet kept hcanon
      | orphaned left => exact h.orphaned left hcanon hu
      | uncharged m stored quotas missing cached => exact h.stored stored hf hB hcanon hu
      | stored m missed stored charged answer => exact h.stored stored hf hB hcanon hu
    · rintro o' f' c' t' s' dto ⟨⟩ hok
      cases r with
      | error e => exact absurd (hr.symm.trans hok) (by simp [Except.map])
      | ok dto' =>
        obtain rfl : dto' = dto := by simpa [Except.map] using hr.symm.trans hok
        exact upload_right h hsha hd hf hB
  | delete id requesterId =>
    refine ⟨?_, by rintro o f c t s dto ⟨⟩⟩
    obtain ⟨r, hd, -⟩ := @serve_delete env _ id requesterId h.canonical
    generalize ((service env).serve (.delete id requesterId) w).world = w' at hd hcanon ⊢
    cases hd with
    | refused => exact h
    | deleted m named row active owner removed released => exact h.removed removed row hcanon
  | recordUpload u n => exact absurd hx (by simp [DedupSteps, Call.quiet])
  | recordDelete u n => exact absurd hx (by simp [DedupSteps, Call.quiet])
  | resetDailyUploads => exact absurd hx (by simp [DedupSteps, Call.quiet])
  | _ => exact hquiet rfl

theorem DedupRight.act (h : DedupRight env B w) (a : Act) : DedupRight env B (a.apply w) :=
  h.kept (act_canonical a h.canonical) (fun k => by rw [act_media]) (act_bucket a w)
    (fun _ _ => act_dedupCache) (act_drawn a w).ge

/-- A successful upload is answered with an active row of its owner and context whose object is
the file; while an entry for the file leads to an active row, it is answered with this one and
nothing is stored or charged. -/
theorem dedup_returns_right_media {tr : List ServiceServed}
    (hsha : ∀ a b, B a → B b → env.sha256 a = env.sha256 b → a = b)
    (hr : (service env).Serial (DedupSteps B) World.empty tr w) (hu : env.DrawsApart w.drawn) :
    ∀ s ∈ tr, Answered.Right env s := by
  suffices h : DedupRight env B w ∧ ∀ s ∈ tr, Answered.Right env s from h.2
  induction hr with
  | refl => exact ⟨dedupRight_empty, fun s hs => absurd hs List.not_mem_nil⟩
  | @call tr u x _ hok ih =>
    obtain ⟨hinv, hall⟩ := ih (hu.mono (drawn_le_serve x))
    obtain ⟨hinv', hright⟩ := serve_right hinv hsha hok hu
    refine ⟨hinv', fun s hs => ?_⟩
    rcases List.mem_append.mp hs with hs | hs
    · exact hall s hs
    · exact List.mem_singleton.mp hs ▸ hright
  | @act tr u a _ _ ih =>
    obtain ⟨hinv, hall⟩ := ih (act_drawn a u ▸ hu)
    exact ⟨hinv.act a, hall⟩

end Runs

/-- One byte of ciphertext. -/
def byteUpload : Call :=
  .upload (exampleId 7) ⟨"application/octet-stream", 1, some [0], none⟩ .MESSAGE none none

/-- The world in which the byte was uploaded once. -/
def uploadedOnce : World := ((service exampleEnv).serve byteUpload World.empty).world

/-- How both uploads are answered. -/
def byteAnswer : UploadMediaResponseDto where
  media_id := exampleId 1
  url := some ⟨s!"messages/{exampleId 7}/{exampleId 1}.bin", 3600⟩
  thumbnail_url := none
  expires_at := 3600000
  context := "message"
  size := 1

/-- The same upload again is answered with the same media. -/
theorem dedup_returns_right_media_twice :
    ((service exampleEnv).serve byteUpload World.empty).result = .ok (.uploaded byteAnswer) ∧
    ((service exampleEnv).serve byteUpload uploadedOnce).result = .ok (.uploaded byteAnswer) ∧
    Answered.Right exampleEnv
      ⟨byteUpload, uploadedOnce, (service exampleEnv).serve byteUpload uploadedOnce⟩ := by
  obtain ⟨hfirst, hsecond, hdrawn⟩ :
      ((service exampleEnv).serve byteUpload World.empty).result = .ok (.uploaded byteAnswer) ∧
      ((service exampleEnv).serve byteUpload uploadedOnce).result = .ok (.uploaded byteAnswer) ∧
      ((service exampleEnv).serve byteUpload uploadedOnce).world.drawn ≤ 10 := by decide +kernel
  have hstep (w : World) : DedupSteps (· = [0]) w (.call byteUpload) := ⟨⟨rfl, rfl⟩, rfl⟩
  refine ⟨hfirst, hsecond, dedup_returns_right_media (B := (· = [0]))
    (fun a b ha hb _ => ha.trans hb.symm)
    (.call (.call (.refl World.empty) (hstep _)) (hstep _)) (exampleEnv_drawsApart hdrawn) _
    (List.mem_cons_of_mem _ List.mem_cons_self)⟩

end WhisprMedia
