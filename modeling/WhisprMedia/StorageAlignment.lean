import WhisprMedia.PutObjects
import WhisprMedia.QuotaEntries
import Mathlib.Algebra.BigOperators.Group.Finset.Basic

/-! The bytes that the quota of a user counts against the bytes that the bucket holds of his uploads.
Blobs are charged and released once their row is inserted; thumbnails are neither, and a blob whose
thumbnail is refused stays in the bucket without a row. -/
namespace WhisprMedia
open Awaiting Keyed MediaService QuotaService StorageService

/-- The size of the object under a key. -/
def objectSize (w : World) (path : String) : ℤ := ((w.bucket path).map (·.contentLength)).elim 0 (↑)

/-- What the quota row of a user counts; a user without a row has stored nothing. -/
def storageUsed (userId : String) (w : World) : ℤ := (w.quotas.get userId).elim 0 (·.storageUsed)

/-- The keys of the objects that a request has put for the user; only uploads put objects. -/
def putFor (env : Env) (userId : String) (s : ServiceServed) : List String :=
  match s.call with
  | .upload ownerId _ _ _ _ => if env.uuidIn ownerId = some userId then putKeys s.done.log else []
  | _ => []

/-- The keys of the objects that were put for the user in a run. -/
def storedKeys (env : Env) (userId : String) (tr : List ServiceServed) : List String :=
  tr.flatMap (putFor env userId)

/-- The bytes that the bucket holds under these keys. -/
def bytesUnder (keys : List String) (w : World) : ℤ := ∑ key ∈ keys.toFinset, objectSize w key

/-- The bytes in the bucket that were stored for the user: of every object that one of his uploads has
put, whether a row refers to it or not. -/
def storedBytes (env : Env) (userId : String) (tr : List ServiceServed) (w : World) : ℤ :=
  bytesUnder (storedKeys env userId tr) w

/-- The bytes of the blobs of the user's rows. -/
def blobBytes (userId : String) (w : World) : ℤ :=
  (w.media.rows.map fun m => if m.ownerId = userId then objectSize w m.storagePath else 0).sum

theorem objectSize_nonneg (w : World) (path : String) : 0 ≤ objectSize w path := by
  unfold objectSize
  cases (w.bucket path).map (·.contentLength) with
  | none => exact Int.le_refl 0
  | some n => exact Int.natCast_nonneg n

theorem objectSize_congr {w w' : World} {path : String} (h : w'.bucket path = w.bucket path) :
    objectSize w' path = objectSize w path := by
  unfold objectSize
  rw [h]

theorem objectSize_none {w : World} {path : String} (h : w.bucket path = none) :
    objectSize w path = 0 := by
  unfold objectSize
  rw [h]
  rfl

theorem blobBytes_nonneg (userId : String) (w : World) : 0 ≤ blobBytes userId w := by
  unfold blobBytes
  induction w.media.rows with
  | nil => exact Int.le_refl 0
  | cons m rows ih =>
    have hnonneg := objectSize_nonneg w m.storagePath
    rw [List.map_cons, List.sum_cons]
    split <;> omega

section Sums
variable {w w' : World} {userId : String}

/-- Rows with the same owner and path, and the same objects. -/
theorem blobBytes_kept (hmedia : ∀ k, (w'.media.get k).map Media.core = (w.media.get k).map Media.core)
    (hbucket : ∀ k m, w.media.get k = some m → w'.bucket m.storagePath = w.bucket m.storagePath) :
    blobBytes userId w' = blobBytes userId w := by
  apply Table.sum_of_get
  intro k
  have hk := hmedia k
  cases hm : w.media.get k with
  | none =>
    rw [hm, Option.map_none, Option.map_eq_none_iff] at hk
    rw [hk]
    rfl
  | some m =>
    rw [hm, Option.map_some, Option.map_eq_some_iff] at hk
    obtain ⟨m', hm', hcore⟩ := hk
    obtain ⟨-, howner, -, hpath, -⟩ := Media.core_eq hcore
    rw [hm', Option.map_some, Option.map_some, ← howner, ← hpath, objectSize_congr (hbucket k m hm)]

/-- A new row adds its own object. -/
theorem blobBytes_insert {m : Media} (hfresh : w.media.get m.id = none)
    (hmedia : w'.media = w.media.insert m)
    (hbucket : ∀ k m', w.media.get k = some m' →
      w'.bucket m'.storagePath = w.bucket m'.storagePath) :
    blobBytes userId w' =
      blobBytes userId w + if m.ownerId = userId then objectSize w' m.storagePath else 0 := by
  unfold blobBytes
  rw [hmedia, Table.rows_insert hfresh, List.map_append, List.sum_append, List.map_singleton,
    List.sum_singleton]
  congr 2
  refine List.map_congr_left fun m' hm' => ?_
  rw [objectSize_congr (hbucket _ _ (Table.get_key hm'))]

/-- A row whose object goes takes its bytes with it. -/
theorem blobBytes_removed {m m' : Media} (hrow : w.media.get m.id = some m)
    (hpath : m'.storagePath = m.storagePath)
    (hmedia : ∀ k, w'.media.get k = if k = m.id then some m' else w.media.get k)
    (hgone : w'.bucket m.storagePath = none)
    (hbucket : ∀ k m₁, w.media.get k = some m₁ → k ≠ m.id →
      w'.bucket m₁.storagePath = w.bucket m₁.storagePath) :
    blobBytes userId w' =
      blobBytes userId w - if m.ownerId = userId then objectSize w m.storagePath else 0 := by
  have hrow' : w'.media.get m.id = some m' := by rw [hmedia, if_pos rfl]
  unfold blobBytes
  rw [Table.sum_step (fun m₁ => if m₁.ownerId = userId then objectSize w m₁.storagePath else 0) _
    hrow hrow' fun k hk => ?_]
  · rw [hpath, objectSize_none hgone, ite_self, add_zero]
  · rw [hmedia, if_neg hk]
    cases hm₁ : w.media.get k with
    | none => rfl
    | some m₁ => rw [Option.map_some, Option.map_some, objectSize_congr (hbucket k m₁ hm₁ hk)]

end Sums

/-! The books and the bucket -/

/-- An active row has its blob, an inactive one has no objects; every user with media has a quota
row, and the row counts the blobs. -/
structure StorageInv (env : Env) (w : World) : Prop extends RowsPlaced env w where
  blob : ∀ k m, w.media.get k = some m → m.isActive = true → objectSize w m.storagePath = m.blobSize
  gone : ∀ k m, w.media.get k = some m → m.isActive = false → ∀ path, m.RefersTo path →
    w.bucket path = none
  size : ∀ k m, w.media.get k = some m → validateBlobSize (.int m.blobSize) = .ok ()
  row : ∀ k m, w.media.get k = some m → (w.quotas.get m.ownerId).isSome = true
  entries : EntryRows env w
  used : ∀ u, storageUsed u w = blobBytes u w

/-- Objects are under keys of ids that were drawn. Of the objects that were put for the user, the blobs
of his rows are the only ones that take space. -/
structure BlobsCounted (env : Env) (userId : String) (keys : List String) (w : World) : Prop where
  objects : ∀ key, (w.bucket key).isSome = true → KeyDrawn env w key
  put : ∀ key ∈ keys, KeyDrawn env w key
  rows : ∀ k m, w.media.get k = some m → m.ownerId = userId → m.storagePath ∈ keys
  rest : ∀ key ∈ keys, objectSize w key = 0 ∨
    ∃ k m, w.media.get k = some m ∧ m.ownerId = userId ∧ m.storagePath = key

section Steps
variable {env : Env} {w w' : World} {userId ownerId : String} {file : File} {context : MediaContext}
  {thumbnailFile : Option File} {m : Media} {keys : List String}

theorem storageInv_empty (env : Env) : StorageInv env World.empty := by
  refine ⟨rowsPlaced_empty env, ?_, ?_, ?_, ?_, fun _ _ _ h => absurd h (by simp [World.empty]),
    fun _ => rfl⟩
  all_goals exact fun _ _ h => absurd h (by simp [World.empty])

theorem blobsCounted_empty (env : Env) (userId : String) : BlobsCounted env userId [] World.empty where
  objects _ h := absurd h (by simp [World.empty])
  put _ h := absurd h List.not_mem_nil
  rows _ _ h := absurd h (by simp [World.empty])
  rest _ h := absurd h List.not_mem_nil

/-- The blobs are summed up over the rows or over the keys. -/
theorem BlobsCounted.bytes (h : BlobsCounted env userId keys w) (hplaced : RowsPlaced env w) :
    bytesUnder keys w = blobBytes userId w := by
  have hrows : blobBytes userId w = ((w.media.rows.filter (·.ownerId = userId)).map
      (objectSize w ·.storagePath)).sum := by
    unfold blobBytes
    induction w.media.rows with
    | nil => rfl
    | cons m rows ih =>
      by_cases ho : m.ownerId = userId
      · simp [ho, ih]
      · simp [ho, ih]
  have hmem {m : Media} (hm : m ∈ w.media.rows.filter (·.ownerId = userId)) :
      w.media.get m.id = some m ∧ m.ownerId = userId := by
    obtain ⟨hm, ho⟩ := List.mem_filter.mp hm
    exact ⟨Table.get_key hm, of_decide_eq_true ho⟩
  -- rows with one path are one row
  have hnodup : ((w.media.rows.filter (·.ownerId = userId)).map Media.storagePath).Nodup := by
    refine List.Nodup.map_on (fun m hm m' hm' hpath => ?_) (w.media.nodup.of_map _ |>.filter _)
    obtain ⟨hget, -⟩ := hmem hm
    obtain ⟨hget', -⟩ := hmem hm'
    have hid := hplaced.apart hget hget' (Or.inl rfl) (Or.inl hpath.symm)
    exact Option.some.inj (hget.symm.trans (hid ▸ hget'))
  rw [hrows, ← Function.comp_def (objectSize w) Media.storagePath, ← List.map_map,
    ← List.sum_toFinset _ hnodup]
  refine (Finset.sum_subset (fun key hkey => ?_) fun key hkey hno => ?_).symm
  · obtain ⟨m, hm, rfl⟩ := List.mem_map.mp (List.mem_toFinset.mp hkey)
    obtain ⟨hget, ho⟩ := hmem hm
    exact List.mem_toFinset.mpr (h.rows _ m hget ho)
  · refine (h.rest key (List.mem_toFinset.mp hkey)).resolve_right ?_
    rintro ⟨k, m, hm, ho, rfl⟩
    refine hno (List.mem_toFinset.mpr (List.mem_map_of_mem (List.mem_filter.mpr ⟨?_, ?_⟩)))
    · exact (Table.get_some.mp hm).1
    · exact decide_eq_true ho

theorem storageUsed_kept (h : QuotaKept userId w w') :
    storageUsed userId w' = storageUsed userId w := by
  unfold storageUsed
  cases hq : w.quotas.get userId with
  | some q =>
    rw [h.kept q hq]
  | none =>
    cases hq' : w'.quotas.get userId with
    | none => rfl
    | some q' =>
      rcases h.new q' hq' with h0 | hf
      · exact absurd (h0.symm.trans hq) (by simp)
      · exact hf.storageUsed

/-- The rows keep their cores, their objects and the quota row of their owner. -/
theorem StorageInv.kept (h : StorageInv env w) (hcanon : RowsCanonical env w')
    (hmedia : ∀ k, (w'.media.get k).map Media.core = (w.media.get k).map Media.core)
    (hbucket : ∀ k m, w.media.get k = some m → ∀ path, m.RefersTo path →
      w'.bucket path = w.bucket path)
    (hquotas : ∀ k, QuotaKept k w w') (hdrawn : w.drawn ≤ w'.drawn) (hentries : EntryRows env w') :
    StorageInv env w' := by
  have hback {k : String} {m' : Media} (hm' : w'.media.get k = some m') :
      ∃ m, w.media.get k = some m ∧ m.core = m'.core := by
    have hk := (hmedia k).symm
    rw [hm', Option.map_some, Option.map_eq_some_iff] at hk
    exact hk
  refine ⟨h.toRowsPlaced.kept hcanon hmedia hdrawn, fun k m' hm' hact => ?_,
    fun k m' hm' hact path hp => ?_, fun k m' hm' => ?_, fun k m' hm' => ?_, hentries, fun u => ?_⟩
  · obtain ⟨m, hm, hcore⟩ := hback hm'
    obtain ⟨-, -, -, hpath, -, -, hsize, -, hactive⟩ := Media.core_eq hcore
    rw [hpath, objectSize_congr (hbucket k m hm _ (Or.inl rfl)), hsize]
    exact h.blob k m hm (hactive ▸ hact)
  · obtain ⟨m, hm, hcore⟩ := hback hm'
    have hp' : m.RefersTo path := hp.of_core hcore
    obtain ⟨-, -, -, -, -, -, -, -, hactive⟩ := Media.core_eq hcore
    rw [hbucket k m hm path hp']
    exact h.gone k m hm (hactive ▸ hact) path hp'
  · obtain ⟨m, hm, hcore⟩ := hback hm'
    obtain ⟨-, -, -, -, -, -, hsize, -, -⟩ := Media.core_eq hcore
    rw [hsize]
    exact h.size k m hm
  · obtain ⟨m, hm, hcore⟩ := hback hm'
    obtain ⟨-, howner, -⟩ := Media.core_eq hcore
    rw [howner]
    obtain ⟨q, hq⟩ := Option.isSome_iff_exists.mp (h.row k m hm)
    exact Option.isSome_iff_exists.mpr ⟨q, (hquotas _).kept q hq⟩
  · rw [storageUsed_kept (hquotas u), h.used u, blobBytes_kept hmedia fun k m hm =>
      hbucket k m hm _ (Or.inl rfl)]

theorem KeyDrawn.later {key : String} (h : KeyDrawn env w key) (hd : w.drawn ≤ w'.drawn) :
    KeyDrawn env w' key := by
  obtain ⟨n, hn, hp⟩ := h
  exact ⟨n, by omega, hp⟩

/-- A key of an id that has just been drawn is none that was drawn before. -/
theorem KeyDrawn.fresh {key id : String} (h : KeyDrawn env w key) (hid : DrawnBetween env w w' id)
    (hu : env.DrawsApart w'.drawn) : ¬ PathOf id key := by
  intro hpath
  obtain ⟨n, hn, hp⟩ := h
  obtain ⟨n', hn', hlt, rfl⟩ := hid
  have hsame := hu n n' (by omega) hlt (hp.id_eq hpath)
  omega

theorem BlobsCounted.none_under (h : BlobsCounted env userId keys w) {key id : String}
    (hid : DrawnBetween env w w' id) (hu : env.DrawsApart w'.drawn) (hpath : PathOf id key) :
    w.bucket key = none := by
  by_contra hsome
  exact (h.objects key (Option.isSome_iff_ne_none.mpr hsome)).fresh hid hu hpath

/-- A step that stores no object keeps what is counted: rows keep their owners and paths, and the old
objects their sizes, unless they go. -/
theorem BlobsCounted.step {later : List String} (h : BlobsCounted env userId keys w)
    (hdrawn : w.drawn ≤ w'.drawn)
    (hobjects : ∀ key, (w'.bucket key).isSome = true → KeyDrawn env w' key)
    (hrows : ∀ k m', w'.media.get k = some m' → m'.ownerId = userId → m'.storagePath ∈ later)
    (hkept : ∀ k m, w.media.get k = some m →
      ∃ m', w'.media.get k = some m' ∧ m'.ownerId = m.ownerId ∧ m'.storagePath = m.storagePath)
    (hsizes : ∀ key ∈ keys, objectSize w' key = objectSize w key ∨ objectSize w' key = 0)
    (hnew : ∀ key ∈ later, key ∈ keys ∨ KeyDrawn env w' key ∧ (objectSize w' key = 0 ∨
      ∃ k m, w'.media.get k = some m ∧ m.ownerId = userId ∧ m.storagePath = key)) :
    BlobsCounted env userId later w' := by
  refine ⟨hobjects, fun key hkey => ?_, hrows, fun key hkey => ?_⟩
  · rcases hnew key hkey with hold | hnew
    · exact (h.put key hold).later hdrawn
    · exact hnew.1
  · rcases hnew key hkey with hold | hnew
    · rcases hsizes key hold with hsize | hsize
      · refine (h.rest key hold).imp hsize.trans ?_
        rintro ⟨k, m, hm, ho, hp⟩
        obtain ⟨m', hm', ho', hp'⟩ := hkept k m hm
        exact ⟨k, m', hm', ho'.trans ho, hp'.trans hp⟩
      · exact Or.inl hsize
    · exact hnew.2

/-- The rows keep their cores. -/
theorem BlobsCounted.kept {later : List String} (h : BlobsCounted env userId keys w)
    (hmedia : ∀ k, (w'.media.get k).map Media.core = (w.media.get k).map Media.core)
    (hdrawn : w.drawn ≤ w'.drawn)
    (hobjects : ∀ key, (w'.bucket key).isSome = true → KeyDrawn env w' key)
    (hsizes : ∀ key ∈ keys, objectSize w' key = objectSize w key ∨ objectSize w' key = 0)
    (hsub : ∀ key ∈ keys, key ∈ later)
    (hnew : ∀ key ∈ later, key ∈ keys ∨ KeyDrawn env w' key ∧ objectSize w' key = 0) :
    BlobsCounted env userId later w' := by
  refine h.step hdrawn hobjects (fun k m' hm' ho => ?_) (fun k m hm => ?_) hsizes
    fun key hkey => (hnew key hkey).imp_right fun h' => ⟨h'.1, Or.inl h'.2⟩
  · have hk := (hmedia k).symm
    rw [hm', Option.map_some, Option.map_eq_some_iff] at hk
    obtain ⟨m, hm, hcore⟩ := hk
    obtain ⟨-, howner, -, hpath, -⟩ := Media.core_eq hcore
    rw [hpath]
    exact hsub _ (h.rows k m hm (howner ▸ ho))
  · have hk := hmedia k
    rw [hm, Option.map_some, Option.map_eq_some_iff] at hk
    obtain ⟨m', hm', hcore⟩ := hk
    obtain ⟨-, howner, -, hpath, -⟩ := Media.core_eq hcore
    exact ⟨m', hm', howner.symm, hpath.symm⟩

/-- The objects of other rows are not touched by an upload. -/
theorem Stored.bucket_row (hs : Stored env ownerId file context thumbnailFile w w' m)
    (h : RowsPlaced env w) (hu : env.DrawsApart w'.drawn) {k path : String} {m' : Media}
    (hm' : w.media.get k = some m') (hp : m'.RefersTo path) : w'.bucket path = w.bucket path :=
  hs.bucket_other (h.not_path hm' hp hs.id hu)

/-- The object under the path of a new row is the file. -/
theorem Stored.main (hs : Stored env ownerId file context thumbnailFile w w' m) :
    w'.bucket m.storagePath = some (fileObject file) := by
  rw [hs.bucket]
  apply putAll_main
  intro p hp
  rcases hs.row.thumbnailPath with ⟨-, hn⟩ | ⟨p', -, hp', hbuild⟩
  · exact absurd (hn.symm.trans hp) (by simp)
  · obtain rfl := Option.some.inj (hp'.symm.trans hp)
    exact buildPath_thumbnails_ne (contextToStorageContext_ne context) hs.row.storagePath hbuild

theorem Stored.objectSize (hs : Stored env ownerId file context thumbnailFile w w' m) :
    objectSize w' m.storagePath = m.blobSize := by
  unfold WhisprMedia.objectSize
  rw [hs.main, hs.row.blobSize]
  rfl

/-- Besides the file, an upload stores at most a thumbnail. -/
theorem Stored.objectSize_other (hs : Stored env ownerId file context thumbnailFile w w' m)
    (h : ∀ thumbnail ∈ thumbnailFile, thumbnail.size = 0) {key : String} (hkey : key ≠ m.storagePath)
    (hnone : w.bucket key = none) : WhisprMedia.objectSize w' key = 0 := by
  rcases hs.row.thumbnailPath with ⟨-, hn⟩ | ⟨p, hfile, hp, -⟩
  · refine objectSize_none ?_
    rw [hs.bucket, hn, putAll_other hkey (by simp), hnone]
  · obtain ⟨thumbnail, rfl⟩ := Option.isSome_iff_exists.mp hfile
    by_cases hk : key = p
    · have hput : w'.bucket key = some (fileObject thumbnail) := by
        rw [hs.bucket, hp, hk]
        exact putAll_thumbnail
      have hzero := h thumbnail rfl
      rw [WhisprMedia.objectSize, hput]
      simp [fileObject, hzero]
    · refine objectSize_none ?_
      rw [hs.bucket, putAll_other hkey fun p' hp' => ?_, hnone]
      rintro rfl
      exact hk (Option.some.inj (hp'.symm.trans hp))

theorem StorageInv.stored (h : StorageInv env w)
    (hs : Stored env ownerId file context thumbnailFile w w' m)
    (hc : Charged env ownerId file.size w w') (hsize : validateBlobSize (.int file.size) = .ok ())
    (hcanon : RowsCanonical env w') (hu : env.DrawsApart w'.drawn) (hentries : EntryRows env w') :
    StorageInv env w' := by
  have hbucket {k : String} {m' : Media} (hm' : w.media.get k = some m') {path : String}
      (hp : m'.RefersTo path) : w'.bucket path = w.bucket path :=
    hs.bucket_row h.toRowsPlaced hu hm' hp
  obtain ⟨o, q, ho, hq, hq'⟩ := hc.charged
  obtain rfl := Option.some.inj (hs.row.owner.symm.trans ho)
  refine ⟨h.toRowsPlaced.stored hs hcanon, fun k m' hm' hact => ?_,
    fun k m' hm' hact path hp => ?_, fun k m' hm' => ?_, fun k m' hm' => ?_, hentries, fun u => ?_⟩
  · rw [hs.get] at hm'
    split at hm'
    · obtain rfl := Option.some.inj hm'
      exact hs.objectSize
    · rw [objectSize_congr (hbucket hm' (Or.inl rfl))]
      exact h.blob k m' hm' hact
  · rw [hs.get] at hm'
    split at hm'
    · obtain rfl := Option.some.inj hm'
      exact absurd (hact.symm.trans hs.row.isActive) (by simp)
    · rw [hbucket hm' hp]
      exact h.gone k m' hm' hact path hp
  · rw [hs.get] at hm'
    split at hm'
    · obtain rfl := Option.some.inj hm'
      rw [hs.row.blobSize]
      exact hsize
    · exact h.size k m' hm'
  · rw [hs.get] at hm'
    split at hm'
    · obtain rfl := Option.some.inj hm'
      exact Option.isSome_iff_exists.mpr ⟨_, hq'⟩
    · by_cases hother : m'.ownerId = m.ownerId
      · rw [hother]
        exact Option.isSome_iff_exists.mpr ⟨_, hq'⟩
      · obtain ⟨q₀, hq₀⟩ := Option.isSome_iff_exists.mp (h.row k m' hm')
        have hkept := hc.others m'.ownerId fun he =>
          hother (Option.some.inj (he.symm.trans hs.row.owner))
        exact Option.isSome_iff_exists.mpr ⟨q₀, hkept.kept q₀ hq₀⟩
  · -- the charge and the new object are of the same size
    have hinsert := @blobBytes_insert w w' u m hs.fresh hs.media fun k m' hm' => hbucket hm' (Or.inl rfl)
    rw [hinsert, ← h.used u]
    by_cases hown : m.ownerId = u
    · have hbefore : storageUsed m.ownerId w = q.storageUsed := by
        unfold storageUsed
        rcases hq with hq | ⟨hq, hf⟩
        · rw [hq]
          rfl
        · rw [hq]
          exact hf.storageUsed.symm
      have hafter : storageUsed m.ownerId w' = q.storageUsed + file.size := by
        unfold storageUsed
        rw [hq']
        rfl
      rw [← hown, if_pos rfl, hs.objectSize, hs.row.blobSize, hbefore, hafter]
    · rw [if_neg hown, add_zero]
      exact storageUsed_kept (hc.others u fun he =>
        hown (Option.some.inj (hs.row.owner.symm.trans he)))

/-- The objects of a removed row are gone. -/
theorem removeAll_self {bucket : String → Option StoredObject} {path : String}
    (hpath : ∀ p, m.RefersTo p → p ≠ "") (hp : m.RefersTo path) :
    removeAll bucket m path = none := by
  rcases hp with rfl | hp
  · exact removeAll_storagePath
  · have hne := hpath path (Or.inr hp)
    refine removeAll_thumbnail ?_
    rw [hp]
    simp [truthy, hne]

/-- The bytes of the other rows are left. -/
theorem StorageInv.removed_bytes (h : StorageInv env w) (hr : Removed w w' m)
    (hrow : w.media.get m.id = some m) (hact : m.isActive = true) (u : String) :
    blobBytes u w' = storageUsed u w - if m.ownerId = u then (m.blobSize : ℤ) else 0 := by
  rw [h.used u, ← h.blob m.id m hrow hact]
  refine @blobBytes_removed w w' u m { m with isActive := false } hrow rfl hr.media ?_ ?_
  · rw [hr.bucket]
    exact removeAll_self (fun p hp => (h.paths _ _ hrow p hp).ne_empty) (Or.inl rfl)
  · intro k m₁ hm₁ hk
    exact h.removed_bucket hr hrow hm₁ hk (Or.inl rfl)

theorem StorageInv.removed (h : StorageInv env w) {r : Except Err Unit} (hr : Removed w w' m)
    (hrow : w.media.get m.id = some m) (hact : m.isActive = true)
    (hrel : Released m.ownerId m.blobSize w r w') (hcanon : RowsCanonical env w')
    (hentries : EntryRows env w') : StorageInv env w' := by
  -- nothing fails: the user has a row, and the size was valid when it was charged
  obtain ⟨q, hq⟩ := Option.isSome_iff_exists.mp (h.row _ _ hrow)
  have hok : r = .ok () := by
    by_contra hfailed
    rcases hrel.missing hfailed with hnone | hsize
    · exact absurd (hq.symm.trans hnone) (by simp)
    · exact hsize (h.size _ _ hrow)
  subst hok
  have hget (u : String) : w'.quotas.get u =
      if u = m.ownerId then (w.quotas.get u).map (·.release m.blobSize) else w.quotas.get u := by
    rw [hrel.row u]
    by_cases hown : u = m.ownerId <;> simp [hown]
  refine ⟨h.toRowsPlaced.removed hr hrow hcanon, fun k m' hm' hact' => ?_,
    fun k m' hm' hact' path hp => ?_, fun k m' hm' => ?_, fun k m' hm' => ?_, hentries, fun u => ?_⟩
  · rw [hr.media] at hm'
    split at hm'
    · obtain rfl := Option.some.inj hm'
      exact Bool.noConfusion hact'
    · next hk =>
      rw [objectSize_congr (h.removed_bucket hr hrow hm' hk (Or.inl rfl))]
      exact h.blob k m' hm' hact'
  · rw [hr.media] at hm'
    split at hm'
    · obtain rfl := Option.some.inj hm'
      rw [hr.bucket]
      exact removeAll_self (m := m) (fun p hp => (h.paths _ _ hrow p hp).ne_empty) hp
    · next hk =>
      rw [h.removed_bucket hr hrow hm' hk hp]
      exact h.gone k m' hm' hact' path hp
  · rw [hr.media] at hm'
    split at hm'
    · obtain rfl := Option.some.inj hm'
      exact h.size m.id m hrow
    · exact h.size k m' hm'
  · have hrows {o : String} (ho : (w.quotas.get o).isSome = true) :
        (w'.quotas.get o).isSome = true := by
      rw [hget]
      split
      · rw [Option.isSome_map]
        exact ho
      · exact ho
    rw [hr.media] at hm'
    split at hm'
    · obtain rfl := Option.some.inj hm'
      exact hrows (o := m.ownerId) (h.row m.id m hrow)
    · exact hrows (h.row k m' hm')
  · have hbytes := h.removed_bytes hr hrow hact u
    by_cases hown : m.ownerId = u
    · -- what is released is at most what is counted, so the clamp does not act
      subst hown
      have hused : storageUsed m.ownerId w = q.storageUsed := by
        unfold storageUsed
        rw [hq]
        rfl
      have hused' : storageUsed m.ownerId w' = max 0 (q.storageUsed - m.blobSize) := by
        unfold storageUsed
        rw [hget, if_pos rfl, hq]
        rfl
      have hnonneg := blobBytes_nonneg m.ownerId w'
      rw [if_pos rfl, hused] at hbytes
      omega
    · have hsame : storageUsed u w' = storageUsed u w := by
        unfold storageUsed
        rw [hget, if_neg (Ne.symm hown)]
      rw [hsame, hbytes, if_neg hown]
      omega

/-- An upload leaves the objects under old keys as they are. -/
theorem UploadDone.bucket_old {r : Except Err UploadMediaResponseDto}
    (hd : UploadDone env ownerId file context thumbnailFile w r w') {key : String}
    (hkey : KeyDrawn env w key) (hu : env.DrawsApart w'.drawn) : w'.bucket key = w.bucket key := by
  cases hd with
  | refused kept => exact congrFun kept.bucket key
  | reused m found kept answer => exact congrFun kept.bucket key
  | orphaned left =>
    obtain ⟨id, hid, hbucket⟩ := left.bucket
    exact hbucket key (hkey.fresh hid hu)
  | uncharged m stored quotas missing cached => exact stored.bucket_other (hkey.fresh stored.id hu)
  | stored m missed stored charged answer => exact stored.bucket_other (hkey.fresh stored.id hu)

/-- A removed row keeps its owner and its path, and no object is added. -/
theorem BlobsCounted.removed (h : BlobsCounted env userId keys w) (hr : Removed w w' m)
    (hrow : w.media.get m.id = some m) : BlobsCounted env userId keys w' := by
  have hbucket (key : String) : w'.bucket key = w.bucket key ∨ w'.bucket key = none := by
    rw [hr.bucket]
    exact removeAll_or key
  refine h.step hr.drawn.ge (fun key hkey => ?_) (fun k m' hm' ho => ?_) (fun k m' hm' => ?_)
    (fun key _ => (hbucket key).imp objectSize_congr objectSize_none) fun key hkey => Or.inl hkey
  · rcases hbucket key with hb | hb
    · exact (h.objects key (hb ▸ hkey)).later hr.drawn.ge
    · exact absurd hkey (by simp [hb])
  · rw [hr.media] at hm'
    split at hm'
    · obtain rfl := Option.some.inj hm'
      exact h.rows _ m hrow ho
    · exact h.rows k m' hm' ho
  · rw [hr.media]
    split
    · next hk =>
      obtain rfl := Option.some.inj (hrow.symm.trans (hk ▸ hm'))
      exact ⟨_, rfl, rfl, rfl⟩
    · exact ⟨m', hm', rfl, rfl⟩

end Steps

/-! Serial runs -/

/-- The upload puts bytes that nobody is charged for: it passes its checks, there is no duplicate, and
its thumbnail has bytes and passes its own checks, or the thumbnail is refused, and the bytes of the blob
are stored already. -/
def LeavesUncharged (env : Env) (w : World) (ownerId : String) (file : File)
    (context : MediaContext) (thumbnailFile : Option File) : Prop :=
  PassesChecks env w ownerId file context ∧
    duplicateOf env w ownerId (uploadKey env ownerId file context) = none ∧
    ∃ thumbnail ∈ thumbnailFile, validateThumbnail thumbnail = .ok () ∧ thumbnail.size ≠ 0 ∨
      validateThumbnail thumbnail ≠ .ok () ∧ file.size ≠ 0

/-- Uploads and deletes of any users, while entries expire and time passes. -/
def StorageCalls (_ : World) : Label Call Act → Prop
  | .call (.upload _ _ _ _ _) | .call (.delete _ _) | .act _ => True
  | _ => False

/-- No upload of the user leaves bytes uncharged. -/
def ChargesAll (env : Env) (userId : String) (w : World) : Label Call Act → Prop
  | .call (.upload ownerId file context thumbnailFile _) =>
    env.uuidIn ownerId = some userId → ¬ LeavesUncharged env w ownerId file context thumbnailFile
  | _ => True

/-- The books are right, and what is stored for the user is known. -/
structure Aligned (env : Env) (userId : String) (tr : List ServiceServed) (w : World) : Prop where
  books : StorageInv env w
  counted : BlobsCounted env userId (storedKeys env userId tr) w

section Runs
variable {env : Env} {w w' w₀ : World} {userId : String} {tr : List ServiceServed}

theorem storedKeys_append (s : ServiceServed) : storedKeys env userId (tr ++ [s]) =
    storedKeys env userId tr ++ putFor env userId s := by
  unfold storedKeys
  rw [List.flatMap_append, List.flatMap_singleton]

section Uploads
variable {ownerId : String} {file : File} {context : MediaContext} {thumbnailFile : Option File}
  {sharedWith : Option (List String)}

/-- The world that an upload leaves. -/
abbrev afterUpload (env : Env) (w : World) (ownerId : String) (file : File) (context : MediaContext)
    (thumbnailFile : Option File) (sharedWith : Option (List String)) : World :=
  ((service env).serve (.upload ownerId file context thumbnailFile sharedWith) w).world

theorem mem_putFor {key : String} (h : key ∈ putFor env userId
      ⟨.upload ownerId file context thumbnailFile sharedWith, w,
        (service env).serve (.upload ownerId file context thumbnailFile sharedWith) w⟩) :
    env.uuidIn ownerId = some userId ∧ ∃ id, PathOf id key ∧ DrawnBetween env w
      (afterUpload env w ownerId file context thumbnailFile sharedWith) id := by
  simp only [putFor] at h
  split at h
  · next hu => exact ⟨hu, putKeys_of_upload h⟩
  · exact absurd h List.not_mem_nil

theorem keyDrawn_of_between {key id : String} (hp : PathOf id key) (hid : DrawnBetween env w w' id) :
    KeyDrawn env w' key := by
  obtain ⟨n, -, hlt, rfl⟩ := hid
  exact ⟨n, hlt, hp⟩

/-- What is there after an upload was there before, or was put. -/
theorem put_of_new {key : String} (hnone : w.bucket key = none)
    (h : (afterUpload env w ownerId file context thumbnailFile sharedWith).bucket key ≠ none) :
    key ∈ putKeys
      ((service env).serve (.upload ownerId file context thumbnailFile sharedWith) w).log := by
  by_contra hput
  exact h (bucket_none_of_run hput hnone)

theorem objects_upload (h : ∀ key, (w.bucket key).isSome = true → KeyDrawn env w key) :
    ∀ key, ((afterUpload env w ownerId file context thumbnailFile sharedWith).bucket key).isSome =
      true → KeyDrawn env (afterUpload env w ownerId file context thumbnailFile sharedWith) key := by
  intro key hkey
  cases hb : w.bucket key with
  | some o => exact (h key (by simp [hb])).later (drawn_le_serve _)
  | none =>
    obtain ⟨id, hp, hid⟩ := putKeys_of_upload (put_of_new hb (Option.isSome_iff_ne_none.mp hkey))
    exact keyDrawn_of_between hp hid

/-- What an upload has put and not inserted a row for takes no space. -/
theorem objectSize_of_thrown (hleft : Orphaned env w
      (afterUpload env w ownerId file context thumbnailFile sharedWith))
    {e : Err} (he : ((service env).serve (.upload ownerId file context thumbnailFile sharedWith)
      w).result = .error e) {key : String} (hnone : w.bucket key = none)
    (hx : ¬ LeavesUncharged env w ownerId file context thumbnailFile) :
    objectSize (afterUpload env w ownerId file context thumbnailFile sharedWith) key = 0 := by
  have hends : ProgE.Ends env.exec
      (handle env (.upload ownerId file context thumbnailFile sharedWith)) w (fun _ _ => True)
      (fun _ => ThrownBucket env w ownerId file context thumbnailFile) :=
    upload_thrown.map fun _ _ h => h
  rcases hends.of_error he with hrow | hkept | ⟨⟨hchecks, hmiss, thumbnail, ht, hrefused⟩, hblob⟩
  · obtain ⟨k, hk, hk'⟩ := hrow
    rw [show (Prog.run env.exec (handle env (.upload ownerId file context thumbnailFile
      sharedWith)).run w).world.media = w.media from hleft.media, hk] at hk'
    exact absurd hk' (by simp)
  · rcases hkept key with hb | hb
    · exact objectSize_none (hb.trans hnone)
    · exact objectSize_none hb
  · have hzero : file.size = 0 := by
      by_contra hsize
      exact hx ⟨hchecks, hmiss, thumbnail, ht, Or.inr ⟨hrefused, hsize⟩⟩
    rcases hblob key with hb | hb
    · exact objectSize_none (hb.trans hnone)
    · have hput : (afterUpload env w ownerId file context thumbnailFile sharedWith).bucket key =
        some (fileObject file) := hb
      rw [objectSize, hput]
      simp [fileObject, hzero]

theorem counted_upload (h : Aligned env userId tr w)
    (hx : ChargesAll env userId w
      (.call (.upload ownerId file context thumbnailFile sharedWith)))
    (hu : env.DrawsApart
      (afterUpload env w ownerId file context thumbnailFile sharedWith).drawn) :
    BlobsCounted env userId (storedKeys env userId
        (tr ++ [⟨.upload ownerId file context thumbnailFile sharedWith, w,
          (service env).serve (.upload ownerId file context thumbnailFile sharedWith) w⟩]))
      (afterUpload env w ownerId file context thumbnailFile sharedWith) := by
  obtain ⟨r, hdone, hresult⟩ := serve_upload ownerId file context thumbnailFile sharedWith w
  have hobjects := @objects_upload env w ownerId file context thumbnailFile sharedWith
    h.counted.objects
  have hsizes (key : String) (hkey : key ∈ storedKeys env userId tr) :=
    Or.inl (b := objectSize (afterUpload env w ownerId file context thumbnailFile sharedWith) key = 0)
      (objectSize_congr (hdone.bucket_old (h.counted.put key hkey) hu))
  rw [storedKeys_append]
  -- a new key held nothing before
  have hnew {key : String} (hkey : key ∈ putFor env userId
      ⟨.upload ownerId file context thumbnailFile sharedWith, w,
        (service env).serve (.upload ownerId file context thumbnailFile sharedWith) w⟩) :
      env.uuidIn ownerId = some userId ∧ w.bucket key = none ∧
        KeyDrawn env (afterUpload env w ownerId file context thumbnailFile sharedWith) key := by
    obtain ⟨howner, id, hp, hid⟩ := mem_putFor hkey
    exact ⟨howner, h.counted.none_under hid hu hp, keyDrawn_of_between hp hid⟩
  have hkept (hmedia : ∀ k, ((afterUpload env w ownerId file context thumbnailFile
        sharedWith).media.get k).map Media.core = (w.media.get k).map Media.core)
      (hzero : ∀ key, env.uuidIn ownerId = some userId → w.bucket key = none →
        objectSize (afterUpload env w ownerId file context thumbnailFile sharedWith) key = 0) :=
    h.counted.kept hmedia (drawn_le_serve _) hobjects hsizes
      (fun key hkey => List.mem_append_left _ hkey) fun key hkey =>
        (List.mem_append.mp hkey).imp_right fun hkey => by
          obtain ⟨howner, hnone, hdrawn⟩ := hnew hkey
          exact ⟨hdrawn, hzero key howner hnone⟩
  cases hdone with
  | refused kept =>
    exact hkept kept.media fun key _ hnone => objectSize_none ((congrFun kept.bucket key).trans hnone)
  | reused m found kept answer =>
    exact hkept kept.media fun key _ hnone => objectSize_none ((congrFun kept.bucket key).trans hnone)
  | orphaned left =>
    exact hkept (fun k => by rw [left.media]) fun key howner hnone =>
      objectSize_of_thrown left hresult hnone (hx howner)
  | uncharged m stored quotas missing cached =>
    exact absurd missing (h.books.entries.charged stored cached)
  | @stored dto _ m missed stored charged answer =>
    have hok := upload_of_serve hresult
    have hchecks := passesChecks_of_ok hok
    have howner (hm : m.ownerId = userId) : env.uuidIn ownerId = some userId :=
      hm ▸ stored.row.owner
    refine h.counted.step (drawn_le_serve _) hobjects (fun k m' hm' ho => ?_)
      (fun k m' hm' => ⟨m', stored.old_row hm', rfl, rfl⟩) hsizes fun key hkey =>
        (List.mem_append.mp hkey).imp_right fun hkey => ?_
    · rw [stored.get] at hm'
      split at hm'
      · obtain rfl := Option.some.inj hm'
        have hnone := h.counted.none_under stored.id hu (stored.path (Or.inl rfl))
        refine List.mem_append_right _ ?_
        simp only [putFor, howner ho, if_true]
        exact put_of_new hnone (by rw [stored.main]; simp)
      · exact List.mem_append_left _ (h.counted.rows k m' hm' ho)
    · obtain ⟨howner', hnone, hdrawn⟩ := hnew hkey
      refine ⟨hdrawn, or_iff_not_imp_left.mpr fun hsize => ?_⟩
      have hpath : key = m.storagePath := by
        by_contra hne
        refine hsize (stored.objectSize_other (fun thumbnail ht => ?_) hne hnone)
        by_contra hbytes
        exact hx howner' ⟨hchecks, missed, thumbnail, ht,
          Or.inl ⟨validateThumbnail_of_ok missed hok thumbnail ht, hbytes⟩⟩
      refine ⟨m.id, m, (stored.get _).trans (if_pos rfl), ?_, hpath.symm⟩
      exact Option.some.inj (stored.row.owner.symm.trans howner')

/-- An upload charges what it has inserted a row for. -/
theorem books_upload (h : StorageInv env w) (hu : env.DrawsApart
      (afterUpload env w ownerId file context thumbnailFile sharedWith).drawn) :
    StorageInv env (afterUpload env w ownerId file context thumbnailFile sharedWith) := by
  have hcanon := canonical_serve (.upload ownerId file context thumbnailFile sharedWith) h.canonical
  obtain ⟨r, hdone, hresult⟩ := serve_upload ownerId file context thumbnailFile sharedWith w
  have hentries := @entryRows_upload env w ownerId file context thumbnailFile sharedWith h.entries
  cases hdone with
  | refused kept =>
    exact h.kept hcanon kept.media (fun _ _ _ _ _ => by rw [kept.bucket]) kept.quotas kept.drawn
      hentries
  | reused m found kept answer =>
    exact h.kept hcanon kept.media (fun _ _ _ _ _ => by rw [kept.bucket]) kept.quotas kept.drawn
      hentries
  | orphaned left =>
    obtain ⟨id, hid, hbucket⟩ := left.bucket
    exact h.kept hcanon (fun k => by rw [left.media])
      (fun k m hm path hp => hbucket _ (h.not_path hm hp hid hu)) left.quotas hid.le hentries
  | uncharged m stored quotas missing cached => exact absurd missing (h.entries.charged stored cached)
  | @stored dto _ m missed stored charged answer =>
    have hchecks := passesChecks_of_ok (upload_of_serve hresult)
    exact h.stored stored charged hchecks.size hcanon hu hentries

end Uploads

theorem aligned_delete (h : Aligned env userId tr w) (id requesterId : String) :
    Aligned env userId
      (tr ++ [⟨.delete id requesterId, w, (service env).serve (.delete id requesterId) w⟩])
      ((service env).serve (.delete id requesterId) w).world := by
  have hcanon := canonical_serve (.delete id requesterId) h.books.canonical
  have hentries := entryRows_delete id requesterId h.books.entries
  have hkeys : storedKeys env userId
      (tr ++ [⟨.delete id requesterId, w, (service env).serve (.delete id requesterId) w⟩]) =
      storedKeys env userId tr := (storedKeys_append _).trans (List.append_nil _)
  obtain ⟨r, hdone, -⟩ := serve_delete id requesterId h.books.canonical
  suffices hsame : Aligned env userId tr ((service env).serve (.delete id requesterId) w).world from
    ⟨hsame.books, hkeys ▸ hsame.counted⟩
  generalize ((service env).serve (.delete id requesterId) w).world = w' at *
  cases hdone with
  | refused unowned => exact h
  | deleted m named row active owner removed released =>
    subst owner
    exact ⟨h.books.removed removed row active released hcanon hentries, h.counted.removed removed row⟩

theorem aligned_act (h : Aligned env userId tr w) (a : Act) : Aligned env userId tr (a.apply w) := by
  refine ⟨h.books.kept (act_canonical a h.books.canonical) (fun k => by rw [act_media])
    (fun _ _ _ _ _ => by rw [act_bucket]) (fun k => QuotaKept.of_eq (act_quotas a w))
    (act_drawn a w).ge (entryRows_act a h.books.entries), ?_⟩
  refine h.counted.kept (fun k => by rw [act_media]) (act_drawn a w).ge (fun key hkey => ?_)
    (fun key _ => Or.inl (objectSize_congr (congrFun (act_bucket a w) key))) (fun _ hkey => hkey)
    fun key hkey => Or.inl hkey
  rw [act_bucket] at hkey
  exact (h.counted.objects key hkey).later (act_drawn a w).ge

theorem aligned_serial
    (hr : (service env).Serial (fun u l => StorageCalls u l ∧ ChargesAll env userId u l)
      World.empty tr w) (hu : env.DrawsApart w.drawn) : Aligned env userId tr w := by
  induction hr with
  | refl => exact ⟨storageInv_empty env, blobsCounted_empty env userId⟩
  | @call tr u x _ hok ih =>
    have h := ih (hu.mono (drawn_le_serve x))
    cases x with
    | upload ownerId file context thumbnailFile sharedWith =>
      exact ⟨books_upload h.books hu, counted_upload h hok.2 hu⟩
    | delete id requesterId => exact aligned_delete h id requesterId
    | _ => exact hok.1.elim
  | @act tr u a _ _ ih => exact aligned_act (ih (act_drawn a u ▸ hu)) a

end Runs

/-- In every serial run in which no upload of the user leaves bytes uncharged, his quota row counts the
bytes that the bucket holds of what his uploads have put; so it does after every request, as what a run
has done by then is a run. -/
theorem storage_quota_aligned (env : Env) (userId : String) (tr : List ServiceServed) (w : World)
    (hr : (service env).Serial (fun u l => StorageCalls u l ∧ ChargesAll env userId u l)
      World.empty tr w) (hu : env.DrawsApart w.drawn) :
    storageUsed userId w = storedBytes env userId tr w := by
  have h := aligned_serial hr hu
  exact (h.books.used userId).trans (h.counted.bytes h.books.toRowsPlaced).symm

/-- A picture of three bytes. -/
def threeBytes : File := ⟨"image/jpeg", 3, some [0xff, 0xd8, 0xff], none⟩

def plainUpload : Call := .upload (exampleId 7) threeBytes .AVATAR none none

/-- The same with a thumbnail of four bytes. -/
def thumbnailUpload : Call :=
  .upload (exampleId 7) threeBytes .AVATAR
    (some ⟨"image/gif", 4, some [0x47, 0x49, 0x46, 0x38], none⟩) none

def servedIn (w : World) (x : Call) : ServiceServed := ⟨x, w, (service exampleEnv).serve x w⟩

def uploadedPlain : ServiceServed := servedIn World.empty plainUpload

/-- The same picture again: a dedup hit stores no thumbnail. -/
def reusedPlain : ServiceServed := servedIn uploadedPlain.done.world thumbnailUpload

def deletedPlain : ServiceServed :=
  servedIn reusedPlain.done.world (.delete (exampleId 1) (exampleId 7))

/-- Three bytes are stored and charged, a dedup hit adds none, and a delete gives them back. -/
theorem storage_quota_aligned_deleted :
    (storageUsed (exampleId 7) reusedPlain.done.world = 3 ∧
      storedBytes exampleEnv (exampleId 7) [uploadedPlain, reusedPlain] reusedPlain.done.world = 3) ∧
    storageUsed (exampleId 7) deletedPlain.done.world = storedBytes exampleEnv (exampleId 7)
      [uploadedPlain, reusedPlain, deletedPlain] deletedPlain.done.world := by
  obtain ⟨hhit, hused, hdrawn⟩ : (duplicateOf exampleEnv uploadedPlain.done.world (exampleId 7)
        (uploadKey exampleEnv (exampleId 7) threeBytes .AVATAR)).isSome = true ∧
      storageUsed (exampleId 7) reusedPlain.done.world = 3 ∧
      deletedPlain.done.world.drawn ≤ 10 := by decide +kernel
  have hreused : (service exampleEnv).Serial (fun u l => StorageCalls u l ∧
      ChargesAll exampleEnv (exampleId 7) u l) World.empty
      ([] ++ [uploadedPlain] ++ [reusedPlain]) reusedPlain.done.world := by
    refine .call (.call (.refl _) ⟨trivial, fun _ hleaves => ?_⟩) ⟨trivial, fun _ hleaves => ?_⟩
    · obtain ⟨-, -, thumbnail, ht, -⟩ := hleaves
      exact absurd ht (by simp)
    · have hmiss : duplicateOf exampleEnv uploadedPlain.done.world (exampleId 7)
        (uploadKey exampleEnv (exampleId 7) threeBytes .AVATAR) = none := hleaves.2.1
      rw [hmiss] at hhit
      exact absurd hhit (by simp)
  have hdeleted : (service exampleEnv).Serial (fun u l => StorageCalls u l ∧
      ChargesAll exampleEnv (exampleId 7) u l) World.empty
      ([] ++ [uploadedPlain] ++ [reusedPlain] ++ [deletedPlain]) deletedPlain.done.world :=
    .call hreused ⟨trivial, trivial⟩
  have hapart := exampleEnv_drawsApart hdrawn
  have haligned := storage_quota_aligned exampleEnv (exampleId 7) _ _ hreused
    (hapart.mono (drawn_le_serve _))
  exact ⟨⟨hused, haligned.symm.trans hused⟩,
    storage_quota_aligned exampleEnv (exampleId 7) _ _ hdeleted hapart⟩

/-- After an upload with a thumbnail the bucket holds seven bytes, of which three are counted. -/
theorem thumbnail_not_counted : ¬ ∀ tr w, (service exampleEnv).Serial StorageCalls World.empty tr w →
    exampleEnv.DrawsApart w.drawn →
      storageUsed (exampleId 7) w = storedBytes exampleEnv (exampleId 7) tr w := by
  intro hall
  obtain ⟨hdrawn, hused, hstored⟩ : (servedIn World.empty thumbnailUpload).done.world.drawn ≤ 10 ∧
      storageUsed (exampleId 7) (servedIn World.empty thumbnailUpload).done.world = 3 ∧
      storedBytes exampleEnv (exampleId 7) [servedIn World.empty thumbnailUpload]
        (servedIn World.empty thumbnailUpload).done.world = 7 := by decide +kernel
  have haligned := hall [servedIn World.empty thumbnailUpload] _ (.call (.refl _) trivial)
    (exampleEnv_drawsApart hdrawn)
  exact absurd (hused.symm.trans (haligned.trans hstored)) (by decide)

end WhisprMedia
