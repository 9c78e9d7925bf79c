import WhisprMedia.QuotaEntries
import WhisprMedia.StoredMedia

/-! Deduplication beside its absence: the same uploads and deletes, served once with the dedup
cache and once with a dedup cache that always misses. -/
namespace WhisprMedia
open Awaiting Keyed MediaService StorageService

/-- An upload of both runs: when it was made, and the media it was answered with in each. -/
structure UploadRecord where
  ownerId : String
  file : File
  context : MediaContext
  thumbnailFile : Option File
  time : Int
  first : Option String
  second : Option String
  deriving DecidableEq

/-- The upload asks for the row that another one asks for: of one declared type, with a thumbnail or
without, and a message at the same time. -/
structure UploadRecord.AsksAlike (r r₀ : UploadRecord) : Prop where
  mimetype : r.file.mimetype = r₀.file.mimetype
  thumbnail : r.thumbnailFile.isSome = r₀.thumbnailFile.isSome
  time : r.context = .MESSAGE → r.time ≤ r₀.time

/-- The upload that has stored a media: the first that was answered with it. -/
def storedBy (uploads : List UploadRecord) (id : String) : Option UploadRecord :=
  uploads.find? fun r => r.first = some id

/-- The two runs side by side, and the uploads so far. -/
structure Twin where
  first : World
  second : World
  uploads : List UploadRecord

inductive TwinStep where
  | upload (ownerId : String) (file : File) (context : MediaContext) (thumbnailFile : Option File)
      (sharedWith : Option (List String))
  /-- Delete the media that the `k`-th upload was answered with. -/
  | delete (k : ℕ) (requesterId : String)
  | act (a : Act)

/-- The media of an answered upload. -/
def mediaId : Except Err Reply → Option String
  | .ok (.uploaded dto) => some dto.media_id
  | _ => none

/-- The same world, where every lookup in the dedup cache misses. -/
def World.missing (w : World) : World := { w with dedupCache := fun _ => none }

section Steps
variable (env : Env)

def uploadRecord (t : Twin) (ownerId : String) (file : File) (context : MediaContext)
    (thumbnailFile : Option File) (sharedWith : Option (List String)) : UploadRecord where
  ownerId := ownerId
  file := file
  context := context
  thumbnailFile := thumbnailFile
  time := t.first.now
  first := mediaId
    ((service env).serve (.upload ownerId file context thumbnailFile sharedWith) t.first).result
  second := mediaId ((service env).serve (.upload ownerId file context thumbnailFile sharedWith)
    t.second.missing).result

def serveDelete (id : Option String) (requesterId : String) (w : World) : World :=
  match id with
  | some id => ((service env).serve (.delete id requesterId) w).world
  | none => w

/-- One step of both runs. -/
def Twin.step (t : Twin) : TwinStep → Twin
  | .upload ownerId file context thumbnailFile sharedWith =>
    let x := Call.upload ownerId file context thumbnailFile sharedWith
    { first := ((service env).serve x t.first).world
      second := ((service env).serve x t.second.missing).world
      uploads := t.uploads ++ [uploadRecord env t ownerId file context thumbnailFile sharedWith] }
  | .delete k requesterId =>
    match t.uploads[k]? with
    | some r => { t with
        first := serveDelete env r.first requesterId t.first
        second := serveDelete env r.second requesterId t.second }
    | none => t
  | .act a => { t with first := a.apply t.first, second := a.apply t.second }

/-- An upload that both runs answer asks like the one that has stored the media of its dedup entry, if
that is still there; an owner deletes no media that another upload, answered in both runs, was answered
with. -/
def TwinStep.Fitting (t : Twin) : TwinStep → Prop
  | .upload ownerId file context thumbnailFile sharedWith =>
    let r := uploadRecord env t ownerId file context thumbnailFile sharedWith
    r.first.isSome → r.second.isSome → ∀ m r₀,
      duplicateOf env t.first ownerId (uploadKey env ownerId file context) = some m →
      storedBy t.uploads m.id = some r₀ → r.AsksAlike r₀
  | .delete k requesterId =>
    ∀ r, t.uploads[k]? = some r → env.uuidIn r.ownerId = some requesterId → r.first.isSome →
      ∀ l r', l ≠ k → t.uploads[l]? = some r' → r'.second.isSome → r'.first ≠ r.first
  | .act _ => True

def Twin.empty : Twin := ⟨World.empty, World.empty, []⟩

end Steps

/-! Reads by the owner -/

section Reads
variable {env : Env} {w : World}

end Reads

/-! What the uploads have stored -/

theorem storedBy_append_of_some {uploads : List UploadRecord} {id : String} {r₀ : UploadRecord}
    (h : storedBy uploads id = some r₀) (r : UploadRecord) :
    storedBy (uploads ++ [r]) id = some r₀ := by
  unfold storedBy at h ⊢
  rw [List.find?_append, h, Option.some_or]

theorem storedBy_append_self {uploads : List UploadRecord} {id : String} {r : UploadRecord}
    (hnone : ∀ r₀ ∈ uploads, r₀.first ≠ some id) (hr : r.first = some id) :
    storedBy (uploads ++ [r]) id = some r := by
  have hold : uploads.find? (fun r => r.first = some id) = none :=
    List.find?_eq_none.mpr fun r₀ hr₀ => by simpa using hnone r₀ hr₀
  unfold storedBy
  rw [List.find?_append, hold, Option.none_or, List.find?_singleton, if_pos (by simpa using hr)]

/-- The row is the one that the upload stores when it meets no other. -/
structure RecordedRow (env : Env) (r : UploadRecord) (m : Media) : Prop where
  owner : env.uuidIn r.ownerId = some m.ownerId
  contentType : m.contentType = r.file.mimetype
  thumbnail : m.thumbnailPath.isSome = r.thumbnailFile.isSome
  expiresAt : m.expiresAt = expiryAt env r.context r.time

/-- The row is good enough for the upload. -/
structure Serves (env : Env) (r : UploadRecord) (m : Media) : Prop where
  contentType : m.contentType = r.file.mimetype
  thumbnail : m.thumbnailPath.isSome = r.thumbnailFile.isSome
  expiresAt : r.context = .MESSAGE → ∃ e, m.expiresAt = some e ∧
    r.time + env.MESSAGE_BLOB_TTL_DAYS * 24 * 60 * 60 * 1000 ≤ e

/-- A dedup entry leads to the row of the upload that has stored it, by the user and in the context of
its key. -/
def EntriesRecorded (env : Env) (uploads : List UploadRecord) (w : World) : Prop :=
  ∀ ownerId context digest id, w.dedupCache (dedupKey ownerId context digest) = some id →
    ∃ r m, storedBy uploads id = some r ∧ r.ownerId = ownerId ∧ r.context = context ∧
      w.media.get id = some m ∧ RecordedRow env r m

section Steps
variable {env : Env} {w w' : World} {ownerId : String} {file : File} {context : MediaContext}
  {thumbnailFile : Option File} {uploads : List UploadRecord} {r : UploadRecord} {m m₁ : Media}

theorem RowOf.recorded (h : RowOf env r.ownerId r.file r.context r.thumbnailFile r.time m) :
    RecordedRow env r m := by
  refine ⟨h.owner, h.contentType, ?_, h.expiresAt⟩
  rcases h.thumbnailPath with ⟨hf, hn⟩ | ⟨p, hf, hp, -⟩
  · rw [hf, hn]
    rfl
  · rw [hf, hp]
    rfl

theorem RecordedRow.of_core (h : RecordedRow env r m) (hc : m₁.core = m.core) :
    RecordedRow env r m₁ := by
  obtain ⟨-, howner, -, -, hthumb, htype, -, hexp, -⟩ := Media.core_eq hc
  exact ⟨howner ▸ h.owner, htype ▸ h.contentType, hthumb ▸ h.thumbnail, hexp ▸ h.expiresAt⟩

theorem Serves.of_core (h : Serves env r m) (hc : m₁.core = m.core) : Serves env r m₁ := by
  obtain ⟨-, -, -, -, hthumb, htype, -, hexp, -⟩ := Media.core_eq hc
  exact ⟨htype ▸ h.contentType, hthumb ▸ h.thumbnail, fun hm => hexp ▸ h.expiresAt hm⟩

/-- What an upload has stored serves every upload that asks alike. -/
theorem RecordedRow.serves {r₀ : UploadRecord} (h : RecordedRow env r₀ m)
    (hcontext : r₀.context = r.context) (halike : r.AsksAlike r₀) : Serves env r m := by
  refine ⟨h.contentType.trans halike.mimetype.symm, h.thumbnail.trans halike.thumbnail.symm,
    fun hmessage => ⟨_, h.expiresAt.trans (if_pos (hcontext.trans hmessage)), ?_⟩⟩
  have htime := halike.time hmessage
  omega

theorem UploadRecord.AsksAlike.refl (r : UploadRecord) : r.AsksAlike r :=
  ⟨rfl, rfl, fun _ => Int.le_refl _⟩

/-- Entries that were there lead to the rows they led to, also after another upload. -/
theorem EntriesRecorded.old {later : List UploadRecord} (h : EntriesRecorded env uploads w)
    (hlater : ∀ id r₀, storedBy uploads id = some r₀ → storedBy later id = some r₀)
    (hrows : ∀ k m, w.media.get k = some m → ∃ m', w'.media.get k = some m' ∧
      ∀ r₀, RecordedRow env r₀ m → RecordedRow env r₀ m')
    {o : String} {c : MediaContext} {d : List (Fin 16)} {id : String}
    (hid : w.dedupCache (dedupKey o c d) = some id) :
    ∃ r m, storedBy later id = some r ∧ r.ownerId = o ∧ r.context = c ∧
      w'.media.get id = some m ∧ RecordedRow env r m := by
  obtain ⟨r₀, m, hr, ho, hc, hm, hrow⟩ := h o c d id hid
  obtain ⟨m', hm', hkept⟩ := hrows id m hm
  exact ⟨r₀, m', hlater id r₀ hr, ho, hc, hm', hkept r₀ hrow⟩

theorem EntriesRecorded.step {later : List UploadRecord} (h : EntriesRecorded env uploads w)
    (hlater : ∀ id r₀, storedBy uploads id = some r₀ → storedBy later id = some r₀)
    (hdedup : ∀ key id, w'.dedupCache key = some id → w.dedupCache key = some id)
    (hrows : ∀ k m, w.media.get k = some m → ∃ m', w'.media.get k = some m' ∧
      ∀ r₀, RecordedRow env r₀ m → RecordedRow env r₀ m') : EntriesRecorded env later w' :=
  fun _ _ _ _ hid => h.old hlater hrows (hdedup _ _ hid)

/-- The active row of a dedup entry, with the upload that has stored it. -/
theorem EntriesRecorded.duplicate (h : EntriesRecorded env uploads w)
    (hcanon : RowsCanonical env w)
    (found : duplicateOf env w ownerId (uploadKey env ownerId file context) = some m) :
    ∃ r, storedBy uploads m.id = some r ∧ r.ownerId = ownerId ∧ r.context = context ∧
      RecordedRow env r m := by
  obtain ⟨id, hid, -, -, hsame⟩ := hcanon.duplicate found
  obtain ⟨r, m₁, hr, ho, hc, hm₁, hrow⟩ := h _ _ _ _ hid
  obtain ⟨rfl, rfl⟩ := hsame m₁ hm₁
  exact ⟨r, hr, ho, hc, hrow⟩

/-- An upload, with the record of its answer. A row that is stored without an answer would lack a
record, but nothing fails here: a cached quota comes from a row. -/
theorem EntriesRecorded.uploaded (h : EntriesRecorded env uploads w) (hentries : EntryRows env w)
    (hdrawn : ∀ r₀ ∈ uploads, ∀ i, r₀.first = some i → w.media.get i ≠ none)
    {e : Except Err UploadMediaResponseDto}
    (hd : UploadDone env r.ownerId r.file r.context r.thumbnailFile w e w') (htime : r.time = w.now)
    (hr : ∀ dto, e = .ok dto → r.first = some dto.media_id) :
    EntriesRecorded env (uploads ++ [r]) w' := by
  have hlater (id : String) (r₀ : UploadRecord) (h₀ : storedBy uploads id = some r₀) :
      storedBy (uploads ++ [r]) id = some r₀ := storedBy_append_of_some h₀ r
  have hrows (k : String) (m : Media) (hm : w.media.get k = some m) :
      ∃ m', w'.media.get k = some m' ∧ ∀ r₀, RecordedRow env r₀ m → RecordedRow env r₀ m' := by
    obtain ⟨m', hm', hcore⟩ := hd.row hm
    exact ⟨m', hm', fun _ hrow => hrow.of_core hcore⟩
  cases hd with
  | refused kept => exact h.step hlater (fun _ _ hid => kept.dedup ▸ hid) hrows
  | reused m found kept answer => exact h.step hlater (fun _ _ hid => kept.dedup ▸ hid) hrows
  | orphaned left => exact h.step hlater (fun _ _ hid => left.dedup ▸ hid) hrows
  | uncharged m stored quotas missing cached => exact absurd missing (hentries.charged stored cached)
  | @stored dto w' m missed stored charged answer =>
    intro o c d id hid
    rcases stored.entry hid with ⟨rfl, rfl, -, rfl⟩ | hold
    · have hnew (r₀ : UploadRecord) (hr₀ : r₀ ∈ uploads) : r₀.first ≠ some m.id :=
        fun he => hdrawn r₀ hr₀ m.id he stored.fresh
      refine ⟨r, m, storedBy_append_self hnew (answer ▸ hr dto rfl), rfl, rfl, ?_, ?_⟩
      · rw [stored.get, if_pos rfl]
      · exact RowOf.recorded (htime ▸ stored.row)
    · exact h.old hlater hrows hold

/-- The row that an upload is answered with is its own, or the one of a dedup hit. -/
theorem UploadDone.answered {dto : UploadMediaResponseDto}
    (hd : UploadDone env ownerId file context thumbnailFile w (.ok dto) w')
    (hcanon : RowsCanonical env w) : ∃ m, w'.media.get dto.media_id = some m ∧ m.isActive = true ∧
      (RowOf env ownerId file context thumbnailFile w.now m ∨
        ∃ m₀, duplicateOf env w ownerId (uploadKey env ownerId file context) = some m₀ ∧
          m.core = m₀.core) := by
  cases hd with
  | reused m₀ found kept answer =>
    obtain ⟨id, hid, hget, hact, -⟩ := hcanon.duplicate found
    obtain ⟨m, hm, hcore⟩ := kept.get hget
    obtain ⟨-, -, -, -, -, -, -, -, hactive⟩ := Media.core_eq hcore.symm
    exact ⟨m, answer ▸ hm, hactive.trans hact, Or.inr ⟨_, found, hcore⟩⟩
  | stored m missed stored charged answer =>
    exact ⟨m, answer ▸ (stored.get _).trans (if_pos rfl), stored.row.isActive, Or.inl stored.row⟩

theorem duplicateOf_missing (w : World) (key : String) :
    duplicateOf env w.missing ownerId key = none := rfl

theorem UploadDone.now {r : Except Err UploadMediaResponseDto}
    (hd : UploadDone env ownerId file context thumbnailFile w r w') : w'.now = w.now := by
  cases hd with
  | refused kept => exact kept.now
  | reused m found kept answer => exact kept.now
  | orphaned left => exact left.now
  | uncharged m stored quotas missing cached => exact stored.now
  | stored m missed stored charged answer => exact stored.now

/-- An upload that was answered with a media. -/
theorem serve_uploaded {sharedWith : Option (List String)} {id : String} (h : mediaId
    ((service env).serve (.upload ownerId file context thumbnailFile sharedWith) w).result =
      some id) : ∃ dto, dto.media_id = id ∧ UploadDone env ownerId file context thumbnailFile w
        (.ok dto)
        ((service env).serve (.upload ownerId file context thumbnailFile sharedWith) w).world := by
  obtain ⟨r, hd, hr⟩ := @serve_upload env ownerId file context thumbnailFile sharedWith w
  rw [hr] at h
  cases r with
  | ok dto => exact ⟨dto, Option.some.inj h, hd⟩
  | error e => exact absurd h (by simp [mediaId, Except.map])

section Deletes
variable {id requesterId k : String} {r : Except Err Unit} {m : Media}

/-- A delete leaves a row as it is, or makes it inactive for its owner. -/
theorem DeleteDone.row (hd : DeleteDone env id requesterId w r w') (hm : w.media.get k = some m) :
    w'.media.get k = some m ∨ w'.media.get k = some { m with isActive := false } ∧
      env.uuidIn id = some k ∧ m.ownerId = requesterId := by
  cases hd with
  | refused unowned => exact Or.inl hm
  | deleted m₀ named row active owner removed released =>
    rw [removed.media]
    split
    · next hk =>
      rw [hk, row] at hm
      obtain rfl := Option.some.inj hm
      exact Or.inr ⟨rfl, hk ▸ named, owner⟩
    · exact Or.inl hm

/-- A row that its owner has deleted is inactive. -/
theorem DeleteDone.inactive (hd : DeleteDone env id requesterId w r w')
    (hm : w.media.get k = some m) (hid : env.uuidIn id = some k) (ho : m.ownerId = requesterId)
    {m' : Media} (hm' : w'.media.get k = some m') : m'.isActive = false := by
  obtain rfl := media_id hm
  cases hd with
  | refused unowned =>
    obtain rfl := Option.some.inj (hm.symm.trans hm')
    by_contra hact
    exact unowned m hid hm (by simpa using hact) ho
  | deleted m₀ named row active owner removed released =>
    rw [removed.media, if_pos (Option.some.inj (hid.symm.trans named))] at hm'
    rw [← Option.some.inj hm']

theorem DeleteDone.now (hd : DeleteDone env id requesterId w r w') : w'.now = w.now := by
  cases hd with
  | refused unowned => rfl
  | deleted m named row active owner removed released => exact removed.now

theorem EntriesRecorded.deleted (h : EntriesRecorded env uploads w)
    (hd : DeleteDone env id requesterId w r w') : EntriesRecorded env uploads w' := by
  have hdedup : w'.dedupCache = w.dedupCache := by
    cases hd with
    | refused unowned => rfl
    | deleted m named row active owner removed released => exact removed.dedup
  refine h.step (fun _ _ h₀ => h₀) (fun _ _ hid => hdedup ▸ hid) fun k m hm => ?_
  rcases hd.row hm with hm' | ⟨hm', -⟩
  · exact ⟨m, hm', fun _ hrow => hrow⟩
  · exact ⟨_, hm', fun _ hrow => ⟨hrow.owner, hrow.contentType, hrow.thumbnail, hrow.expiresAt⟩⟩

end Deletes

theorem act_now_eq (a : Act) (h : w.now = w'.now) : (a.apply w).now = (a.apply w').now := by
  cases a <;> simp only [Act.apply] <;> (repeat' split) <;> simp [h]

end Steps

/-! The two runs -/

/-- The rows that an upload was answered with in the two runs: the second is its own, the first serves
it and lives at least as long. -/
structure TwinRows (env : Env) (r : UploadRecord) (m m' : Media) : Prop where
  serves : Serves env r m
  stored : RecordedRow env r m'
  active : m'.isActive = true → m.isActive = true

structure TwinInv (env : Env) (t : Twin) : Prop where
  live : RowsLive env t.first
  quotas : EntryRows env t.first
  entries : EntriesRecorded env t.uploads t.first
  canonical : RowsCanonical env t.second
  now : t.second.now = t.first.now
  owner : ∀ r ∈ t.uploads, ∀ i, r.first = some i → ∃ m, t.first.media.get i = some m ∧
    env.uuidIn r.ownerId = some m.ownerId
  rows : ∀ r ∈ t.uploads, ∀ i j, r.first = some i → r.second = some j → ∃ m m',
    t.first.media.get i = some m ∧ t.second.media.get j = some m' ∧ TwinRows env r m m'

section Twins
variable {env : Env} {t : Twin}

theorem TwinRows.of_core {r : UploadRecord} {m m' m₁ m₁' : Media} (h : TwinRows env r m m')
    (hc : m₁.core = m.core) (hc' : m₁'.core = m'.core) : TwinRows env r m₁ m₁' := by
  obtain ⟨-, -, -, -, -, -, -, -, hact'⟩ := Media.core_eq hc'
  obtain ⟨-, -, -, -, -, -, -, -, hact⟩ := Media.core_eq hc
  refine ⟨h.serves.of_core hc, h.stored.of_core hc', fun ha => ?_⟩
  rw [← hact]
  exact h.active (hact'.trans ha)

section Uploads
variable {ownerId : String} {file : File} {context : MediaContext} {thumbnailFile : Option File}
  {sharedWith : Option (List String)}

/-- The row that the first run answers an upload with serves it. -/
theorem TwinInv.answered (h : TwinInv env t) {i : String}
    (hi : (uploadRecord env t ownerId file context thumbnailFile sharedWith).first = some i) :
    ∃ m, (t.step env (.upload ownerId file context thumbnailFile sharedWith)).first.media.get i =
        some m ∧ m.isActive = true ∧ env.uuidIn ownerId = some m.ownerId ∧
      ((∀ m₀ r₀, duplicateOf env t.first ownerId (uploadKey env ownerId file context) = some m₀ →
          storedBy t.uploads m₀.id = some r₀ →
          (uploadRecord env t ownerId file context thumbnailFile sharedWith).AsksAlike r₀) →
        Serves env (uploadRecord env t ownerId file context thumbnailFile sharedWith) m) := by
  obtain ⟨dto, rfl, hd⟩ := serve_uploaded hi
  obtain ⟨m, hm, hact, hfrom⟩ := hd.answered h.live.canonical
  refine ⟨m, hm, hact, ?_⟩
  rcases hfrom with hrow | ⟨m₀, found, hcore⟩
  · exact ⟨hrow.owner, fun _ => (RowOf.recorded hrow).serves rfl (.refl _)⟩
  · obtain ⟨r₀, hr₀, ho, hc, hrow⟩ := h.entries.duplicate h.live.canonical found
    obtain ⟨-, howner, -⟩ := Media.core_eq hcore
    refine ⟨by rw [← howner, ← hrow.owner, ho], fun halike => ?_⟩
    exact (hrow.serves hc (halike m₀ r₀ found hr₀)).of_core hcore

/-- An upload: older records keep their rows, the new record has what both runs stored or found. -/
theorem TwinInv.upload (h : TwinInv env t)
    (hfit : TwinStep.Fitting env t (.upload ownerId file context thumbnailFile sharedWith))
    (hu : env.DrawsApart
      (t.step env (.upload ownerId file context thumbnailFile sharedWith)).first.drawn) :
    TwinInv env (t.step env (.upload ownerId file context thumbnailFile sharedWith)) := by
  obtain ⟨r₁, hd₁, hr₁⟩ :=
    @serve_upload env ownerId file context thumbnailFile sharedWith t.first
  obtain ⟨r₂, hd₂, -⟩ :=
    @serve_upload env ownerId file context thumbnailFile sharedWith t.second.missing
  have hcanon₂ : RowsCanonical env t.second.missing := h.canonical
  have hdrawn (r₀ : UploadRecord) (hr₀ : r₀ ∈ t.uploads) (i : String) (hi : r₀.first = some i) :
      t.first.media.get i ≠ none := by
    obtain ⟨m, hm, -⟩ := h.owner r₀ hr₀ i hi
    simp [hm]
  have hrecorded := EntriesRecorded.uploaded
    (r := uploadRecord env t ownerId file context thumbnailFile sharedWith)
    h.entries h.quotas hdrawn hd₁ rfl (fun dto hdto => by
      show mediaId _ = _
      rw [hr₁, hdto]
      rfl)
  refine ⟨h.live.uploaded hd₁ (canonical_serve _ h.live.canonical) hu, entryRows_upload h.quotas,
    hrecorded, canonical_serve _ hcanon₂, hd₂.now.trans (h.now.trans hd₁.now.symm),
    fun r hr i hi => ?_, fun r hr i j hi hj => ?_⟩
  · rcases List.mem_append.mp hr with hr | hr
    · obtain ⟨m, hm, ho⟩ := h.owner r hr i hi
      obtain ⟨m', hm', hcore⟩ := hd₁.row hm
      exact ⟨m', hm', by rw [(Media.core_eq hcore.symm).2.1, ho]⟩
    · obtain rfl := List.mem_singleton.mp hr
      obtain ⟨m, hm, -, ho, -⟩ := h.answered hi
      exact ⟨m, hm, ho⟩
  · rcases List.mem_append.mp hr with hr | hr
    · obtain ⟨m, m', hm, hm', hrows⟩ := h.rows r hr i j hi hj
      obtain ⟨m₁, hm₁, hcore⟩ := hd₁.row hm
      obtain ⟨m₁', hm₁', hcore'⟩ := hd₂.row (w := t.second.missing) hm'
      exact ⟨m₁, m₁', hm₁, hm₁', hrows.of_core hcore hcore'⟩
    · obtain rfl := List.mem_singleton.mp hr
      obtain ⟨m, hm, hact, -, hserves⟩ := h.answered hi
      have halike := hfit (Option.isSome_iff_exists.mpr ⟨i, hi⟩)
        (Option.isSome_iff_exists.mpr ⟨j, hj⟩)
      obtain ⟨dto₂, rfl, hd₂⟩ := serve_uploaded hj
      -- without dedup entries the second run has stored a row of its own
      cases hd₂ with
      | reused m₀ found kept answer =>
        exact absurd ((duplicateOf_missing t.second _).symm.trans found) (by simp)
      | stored m' missed stored charged answer =>
        have hrow := stored.row
        rw [show t.second.missing.now = t.first.now from h.now] at hrow
        exact ⟨m, m', hm, answer ▸ (stored.get _).trans (if_pos rfl), hserves halike,
          RowOf.recorded hrow, fun _ => hact⟩

end Uploads

/-- A run with its delete, if the upload has answered, leaves a row as it is or makes the row of its
target inactive. -/
theorem row_of_delete {id : Option String} {k requesterId : String} {m : Media} {w w' : World}
    (hd : id = none ∧ w' = w ∨ ∃ i e, id = some i ∧ DeleteDone env i requesterId w e w')
    (hm : w.media.get k = some m) :
    w'.media.get k = some m ∨ w'.media.get k = some { m with isActive := false } ∧
      ∃ i, id = some i ∧ env.uuidIn i = some k ∧ m.ownerId = requesterId := by
  rcases hd with ⟨-, rfl⟩ | ⟨i, e, hi, hd⟩
  · exact Or.inl hm
  · exact (hd.row hm).imp_right fun ⟨hget, hnamed, howner⟩ => ⟨hget, i, hi, hnamed, howner⟩

/-- The second run has deleted its row. -/
theorem TwinRows.second_deleted {r : UploadRecord} {m m' : Media} (h : TwinRows env r m m') :
    TwinRows env r m { m' with isActive := false } :=
  ⟨h.serves, ⟨h.stored.owner, h.stored.contentType, h.stored.thumbnail, h.stored.expiresAt⟩,
    fun ha => Bool.noConfusion ha⟩

/-- The first run has deleted its row, after the second. -/
theorem TwinRows.first_deleted {r : UploadRecord} {m m' : Media} (h : TwinRows env r m m')
    (hgone : m'.isActive = false) : TwinRows env r { m with isActive := false } m' :=
  ⟨⟨h.serves.contentType, h.serves.thumbnail, h.serves.expiresAt⟩, h.stored,
    fun ha => absurd (hgone.symm.trans ha) (by simp)⟩

/-- A delete that finds its media leaves a row of the twin inactive in both runs or in none. -/
theorem TwinInv.deleteRows {k : ℕ} {requesterId : String} {r : UploadRecord} {w w' : World}
    (h : TwinInv env t) (hfit : TwinStep.Fitting env t (.delete k requesterId))
    (hr : t.uploads[k]? = some r)
    (hfirst : r.first = none ∧ w = t.first ∨ ∃ i e, r.first = some i ∧
      DeleteDone env i requesterId t.first e w)
    (hsecond : r.second = none ∧ w' = t.second ∨ ∃ j e, r.second = some j ∧
      DeleteDone env j requesterId t.second e w') {l : ℕ} {r' : UploadRecord}
    (hr' : t.uploads[l]? = some r') {i j : String} (hi : r'.first = some i)
    (hj : r'.second = some j) : ∃ m m', w.media.get i = some m ∧ w'.media.get j = some m' ∧
      TwinRows env r' m m' := by
  obtain ⟨m, m', hm, hm', hrows⟩ := h.rows r' (List.mem_of_getElem? hr') i j hi hj
  -- what the second run leaves of the row
  obtain ⟨m₁', hm₁', hrows₁⟩ : ∃ m₁', w'.media.get j = some m₁' ∧ TwinRows env r' m m₁' := by
    rcases row_of_delete hsecond hm' with hget | ⟨hget, -⟩
    · exact ⟨m', hget, hrows⟩
    · exact ⟨_, hget, hrows.second_deleted⟩
  rcases row_of_delete hfirst hm with hget | ⟨hget, i', hi', hnamed, howner⟩
  · exact ⟨m, m₁', hget, hm₁', hrows₁⟩
  · -- the first run has deleted the media, so it is the media of this very upload
    obtain ⟨m₀, hm₀, ho⟩ := h.owner r (List.mem_of_getElem? hr) i' hi'
    have hsame : i' = i := by
      have hc := (h.live.canonical _ _ hm₀).id
      rw [media_id hm₀] at hc
      exact Option.some.inj (hc.symm.trans hnamed)
    subst hsame
    obtain rfl := Option.some.inj (hm.symm.trans hm₀)
    have hl : l = k := by
      by_contra hne
      exact hfit r hr (howner ▸ ho) (Option.isSome_iff_exists.mpr ⟨_, hi'⟩) l r' hne hr'
        (Option.isSome_iff_exists.mpr ⟨j, hj⟩) (hi.trans hi'.symm)
    subst hl
    obtain rfl := Option.some.inj (hr.symm.trans hr')
    have hgone : m₁'.isActive = false := by
      have hmj : env.uuidIn j = some j := by
        have hc := (h.canonical _ _ hm').id
        rwa [media_id hm'] at hc
      rcases hsecond with ⟨hn, -⟩ | ⟨j', e', hj', hd'⟩
      · exact absurd (hn.symm.trans hj) (by simp)
      · obtain rfl := Option.some.inj (hj'.symm.trans hj)
        refine hd'.inactive hm' hmj ?_ hm₁'
        exact (Option.some.inj (hrows.stored.owner.symm.trans ho)).trans howner
    exact ⟨_, m₁', hget, hm₁', hrows₁.first_deleted hgone⟩

theorem serveDelete_done {w : World} (hcanon : RowsCanonical env w) (id : Option String)
    (requesterId : String) : id = none ∧ serveDelete env id requesterId w = w ∨
      ∃ i e, id = some i ∧ DeleteDone env i requesterId w e (serveDelete env id requesterId w) := by
  cases id with
  | none => exact Or.inl ⟨rfl, rfl⟩
  | some i =>
    obtain ⟨e, hd, -⟩ := @serve_delete env _ i requesterId hcanon
    exact Or.inr ⟨i, e, rfl, hd⟩

theorem serveDelete_canonical {w : World} (hcanon : RowsCanonical env w) (id : Option String)
    (requesterId : String) : RowsCanonical env (serveDelete env id requesterId w) := by
  cases id with
  | none => exact hcanon
  | some i => exact canonical_serve _ hcanon

theorem TwinInv.delete (h : TwinInv env t) {k : ℕ} {requesterId : String}
    (hfit : TwinStep.Fitting env t (.delete k requesterId)) :
    TwinInv env (t.step env (.delete k requesterId)) := by
  cases hr : t.uploads[k]? with
  | none =>
    simp only [Twin.step, hr]
    exact h
  | some r =>
    simp only [Twin.step, hr]
    have hfirst := serveDelete_done h.live.canonical r.first requesterId
    have hsecond := serveDelete_done h.canonical r.second requesterId
    have hcanon := serveDelete_canonical h.live.canonical r.first requesterId
    have hnow₁ : (serveDelete env r.first requesterId t.first).now = t.first.now := by
      rcases hfirst with ⟨-, he⟩ | ⟨i, e, -, hd⟩
      · rw [he]
      · exact hd.now
    have hnow₂ : (serveDelete env r.second requesterId t.second).now = t.second.now := by
      rcases hsecond with ⟨-, he⟩ | ⟨j, e, -, hd⟩
      · rw [he]
      · exact hd.now
    refine ⟨?_, ?_, ?_, serveDelete_canonical h.canonical r.second requesterId,
      hnow₂.trans (h.now.trans hnow₁.symm), fun r' hr' i hi => ?_, fun r' hr' i j hi hj => ?_⟩
    · rcases hfirst with ⟨-, he⟩ | ⟨i, e, -, hd⟩
      · exact he.symm ▸ h.live
      · exact h.live.deleted hd hcanon
    · cases r.first with
      | none => exact h.quotas
      | some i => exact entryRows_delete i requesterId h.quotas
    · rcases hfirst with ⟨-, he⟩ | ⟨i, e, -, hd⟩
      · exact he.symm ▸ h.entries
      · exact h.entries.deleted hd
    · obtain ⟨m, hm, ho⟩ := h.owner r' hr' i hi
      rcases row_of_delete hfirst hm with hget | ⟨hget, -⟩
      · exact ⟨m, hget, ho⟩
      · exact ⟨_, hget, ho⟩
    · obtain ⟨l, hl⟩ := List.mem_iff_getElem?.mp hr'
      exact h.deleteRows hfit hr hfirst hsecond hl hi hj

theorem TwinInv.act (h : TwinInv env t) (a : Act) : TwinInv env (t.step env (.act a)) := by
  refine ⟨h.live.act a, entryRows_act a h.quotas,
    h.entries.step (fun _ _ h₀ => h₀) (fun _ _ => act_dedupCache) fun k m hm => ?_,
    act_canonical a h.canonical, act_now_eq a h.now, fun r hr i hi => ?_, fun r hr i j hi hj => ?_⟩
  · exact ⟨m, (act_media a _).symm ▸ hm, fun _ hrow => hrow⟩
  · obtain ⟨m, hm, ho⟩ := h.owner r hr i hi
    exact ⟨m, (act_media a _).symm ▸ hm, ho⟩
  · obtain ⟨m, m', hm, hm', hrows⟩ := h.rows r hr i j hi hj
    exact ⟨m, m', (act_media a _).symm ▸ hm, (act_media a _).symm ▸ hm', hrows⟩

theorem TwinInv.step (h : TwinInv env t) {s : TwinStep} (hfit : s.Fitting env t)
    (hu : env.DrawsApart (t.step env s).first.drawn) : TwinInv env (t.step env s) := by
  cases s with
  | upload o f c th sh => exact h.upload hfit hu
  | delete k requesterId => exact h.delete hfit
  | act a => exact h.act a

end Twins

/-! Small runs -/

end WhisprMedia
