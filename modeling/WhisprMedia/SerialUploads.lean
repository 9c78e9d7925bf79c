import WhisprMedia.QuietSteps
import WhisprMedia.ServiceErrors

/-! What an upload has done when it has run alone: it was refused, it was answered with the media
of a dedup entry, or it has stored objects under a new id and, if nothing failed, a row. -/
namespace WhisprMedia
open Awaiting Keyed MediaService QuotaService StorageService

/-- The active row that a dedup entry leads a user to. -/
def duplicateOf (env : Env) (w : World) (ownerId key : String) : Option Media := do
  let id ← truthy (w.dedupCache key)
  let u ← env.uuidIn ownerId
  let i ← env.uuidIn id
  (w.media.get i).filter fun m => m.isActive && rlsSelect u m

/-- The dedup key of an upload. -/
def uploadKey (env : Env) (ownerId : String) (file : File) (context : MediaContext) : String :=
  dedupKey ownerId context (env.sha256 (fileBuffer file))

/-- The expiry of a new row. -/
def expiryAt (env : Env) (context : MediaContext) (now : Int) : Option Int :=
  if context = .MESSAGE then some (now + env.MESSAGE_BLOB_TTL_DAYS * 24 * 60 * 60 * 1000) else none

/-- The bucket after the PUTs of an upload. -/
def putAll (bucket : String → Option StoredObject) (storagePath : String) (file : File)
    (thumbnailPath : Option String) (thumbnailFile : Option File) :
    String → Option StoredObject :=
  match thumbnailPath, thumbnailFile with
  | some path, some thumbnail =>
    Function.update (Function.update bucket storagePath (some (fileObject file))) path
      (some (fileObject thumbnail))
  | _, _ => Function.update bucket storagePath (some (fileObject file))

section
variable {bucket : String → Option StoredObject} {storagePath key : String} {file : File}
  {thumbnailPath : Option String} {thumbnailFile : Option File}

theorem putAll_other (h : key ≠ storagePath) (ht : ∀ p, thumbnailPath = some p → key ≠ p) :
    putAll bucket storagePath file thumbnailPath thumbnailFile key = bucket key := by
  unfold putAll
  split
  · next p _ => rw [Function.update_of_ne (ht p rfl), Function.update_of_ne h]
  · exact Function.update_of_ne h _ _

theorem putAll_main (ht : ∀ p, thumbnailPath = some p → storagePath ≠ p) :
    putAll bucket storagePath file thumbnailPath thumbnailFile storagePath =
      some (fileObject file) := by
  unfold putAll
  split
  · next p _ => rw [Function.update_of_ne (ht p rfl), Function.update_self]
  · exact Function.update_self _ _ _

theorem putAll_thumbnail {thumbnail : File} {p : String} :
    putAll bucket storagePath file (some p) (some thumbnail) p = some (fileObject thumbnail) :=
  Function.update_self _ _ _

end

/-- The ids drawn between two worlds. -/
def DrawnBetween (env : Env) (w w' : World) (id : String) : Prop :=
  ∃ n, w.drawn ≤ n ∧ n < w'.drawn ∧ id = env.randomUUID n

/-- The row of an upload at the time `now`. -/
structure RowOf (env : Env) (ownerId : String) (file : File) (context : MediaContext)
    (thumbnailFile : Option File) (now : Int) (m : Media) : Prop where
  owner : env.uuidIn ownerId = some m.ownerId
  inContext : m.context = context.value
  contentType : m.contentType = file.mimetype
  blobSize : m.blobSize = file.size
  isActive : m.isActive = true
  expiresAt : m.expiresAt = expiryAt env context now
  storagePath : buildPath (contextToStorageContext context) ownerId m.id = .ok m.storagePath
  thumbnailPath : thumbnailFile = none ∧ m.thumbnailPath = none ∨ ∃ path,
    thumbnailFile.isSome ∧ m.thumbnailPath = some path ∧
      buildPath .thumbnails ownerId m.id = .ok path

/-- The row of a new upload is there, and the objects under its keys. -/
structure Stored (env : Env) (ownerId : String) (file : File) (context : MediaContext)
    (thumbnailFile : Option File) (w w' : World) (m : Media) : Prop where
  row : RowOf env ownerId file context thumbnailFile w.now m
  id : DrawnBetween env w w' m.id
  fresh : w.media.get m.id = none
  media : w'.media = w.media.insert m
  bucket : w'.bucket = putAll w.bucket m.storagePath file m.thumbnailPath thumbnailFile
  dedup : w'.dedupCache =
    Function.update w.dedupCache (uploadKey env ownerId file context) (some m.id)
  now : w'.now = w.now

/-- A quota row after the charge for a file. -/
def UserQuota.charge (q : UserQuota) (size : Int) : UserQuota := { q with
  storageUsed := q.storageUsed + size
  filesCount := q.filesCount + 1
  dailyUploads := q.dailyUploads + 1 }

def World.chargeRow (w : World) (u : String) (size : Int) : World :=
  w.updateQuota u (·.charge size) fun _ => rfl

/-- The user is charged once for a file of this size. -/
structure Charged (env : Env) (ownerId : String) (size : Int) (w w' : World) : Prop where
  charged : ∃ u q, env.uuidIn ownerId = some u ∧
    (w.quotas.get u = some q ∨ w.quotas.get u = none ∧ q.Fresh) ∧
    w'.quotas.get u = some (q.charge size)
  others : ∀ k, env.uuidIn ownerId ≠ some k → QuotaKept k w w'

/-- Nothing but objects under the keys of one new id has changed. -/
structure Orphaned (env : Env) (w w' : World) : Prop where
  media : w'.media = w.media
  bucket : ∃ id, DrawnBetween env w w' id ∧ ∀ key, ¬ PathOf id key → w'.bucket key = w.bucket key
  dedup : w'.dedupCache = w.dedupCache
  quotas : ∀ k, QuotaKept k w w'
  now : w'.now = w.now

/-- The ways in which an upload can end. -/
inductive UploadDone (env : Env) (ownerId : String) (file : File) (context : MediaContext)
    (thumbnailFile : Option File) (w : World) :
    Except Err UploadMediaResponseDto → World → Prop
  | refused {e w'} (kept : Quiet w w') : UploadDone env ownerId file context thumbnailFile w (.error e) w'
  | reused {dto w'} (m : Media)
      (found : duplicateOf env w ownerId (uploadKey env ownerId file context) = some m)
      (kept : Quiet w w') (answer : dto.media_id = m.id) :
      UploadDone env ownerId file context thumbnailFile w (.ok dto) w'
  | orphaned {e w'} (left : Orphaned env w w') :
      UploadDone env ownerId file context thumbnailFile w (.error e) w'
  /-- The row is there, but its owner has no quota row: an entry of the cache hid this. -/
  | uncharged {e w'} (m : Media)
      (stored : Stored env ownerId file context thumbnailFile w w' m)
      (quotas : ∀ k, QuotaKept k w w')
      (missing : w.quotas.get m.ownerId = none)
      (cached : (w.quotaCache (cacheKey ownerId)).isSome) :
      UploadDone env ownerId file context thumbnailFile w (.error e) w'
  | stored {dto w'} (m : Media)
      (missed : duplicateOf env w ownerId (uploadKey env ownerId file context) = none)
      (stored : Stored env ownerId file context thumbnailFile w w' m)
      (charged : Charged env ownerId file.size w w') (answer : dto.media_id = m.id) :
      UploadDone env ownerId file context thumbnailFile w (.ok dto) w'

section Frames
variable {env : Env} {ownerId : String} {file : File} {context : MediaContext}
  {thumbnailFile : Option File} {w₀ w w' w'' : World} {m : Media}

theorem DrawnBetween.mono {id : String} (h : DrawnBetween env w w' id) (hd : w₀.drawn ≤ w.drawn)
    (hd' : w'.drawn ≤ w''.drawn) : DrawnBetween env w₀ w'' id := by
  obtain ⟨n, hn, hn', he⟩ := h
  exact ⟨n, by omega, by omega, he⟩

theorem Stored.between (h : Stored env ownerId file context thumbnailFile w w' m)
    (hc : Calm w₀ w) (hc' : Calm w' w'') :
    Stored env ownerId file context thumbnailFile w₀ w'' m where
  row := hc.now ▸ h.row
  id := h.id.mono hc.drawn hc'.drawn
  fresh := by rw [← hc.rows, h.fresh]
  media := by rw [hc'.rows, h.media, hc.rows]
  bucket := by rw [hc'.bucket, h.bucket, hc.bucket]
  dedup := by rw [hc'.dedup, h.dedup, hc.dedup]
  now := by rw [hc'.now, h.now, hc.now]

theorem Orphaned.between (h : Orphaned env w w') (hc : Calm w₀ w) (hc' : Calm w' w'') :
    Orphaned env w₀ w'' where
  media := by rw [hc'.rows, h.media, hc.rows]
  bucket := by
    obtain ⟨id, hid, hb⟩ := h.bucket
    refine ⟨id, hid.mono hc.drawn hc'.drawn, fun key hkey => ?_⟩
    rw [hc'.bucket, hb key hkey, hc.bucket]
  dedup := by rw [hc'.dedup, h.dedup, hc.dedup]
  quotas k := ((hc.quotas k).trans (h.quotas k)).trans (hc'.quotas k)
  now := by rw [hc'.now, h.now, hc.now]

theorem Charged.between {size : Int} (h : Charged env ownerId size w w') (hc : Calm w₀ w)
    (hc' : Calm w' w'') : Charged env ownerId size w₀ w'' where
  charged := by
    obtain ⟨u, q, hu, hq, hq'⟩ := h.charged
    refine ⟨u, q, hu, ?_, (hc'.quotas u).kept _ hq'⟩
    rcases hq with hq | ⟨hq, hf⟩
    · exact (hc.quotas u).before hq
    · exact Or.inr ⟨(hc.quotas u).none hq, hf⟩
  others k hk := ((hc.quotas k).trans (h.others k hk)).trans (hc'.quotas k)

theorem duplicateOf_calm (hc : Calm w₀ w) (key : String) :
    duplicateOf env w ownerId key = duplicateOf env w₀ ownerId key := by
  unfold duplicateOf
  rw [hc.rows, hc.dedup]

/-- Calm parts before and after an upload do not count. -/
theorem UploadDone.between {r : Except Err UploadMediaResponseDto}
    (h : UploadDone env ownerId file context thumbnailFile w r w') (hi : Idle w₀ w)
    (hc' : Calm w' w'') : UploadDone env ownerId file context thumbnailFile w₀ r w'' := by
  have hc := hi.toCalm
  cases h with
  | refused kept => exact .refused ((hc.toQuiet.trans kept).trans hc'.toQuiet)
  | reused m found kept answer =>
    exact .reused m (by rw [← duplicateOf_calm hc, found])
      ((hc.toQuiet.trans kept).trans hc'.toQuiet) answer
  | orphaned left => exact .orphaned (left.between hc hc')
  | uncharged m stored quotas missing cached =>
    exact .uncharged m (stored.between hc hc')
      (fun k => ((hc.quotas k).trans (quotas k)).trans (hc'.quotas k))
      ((hc.quotas _).none missing) (hi.quotaCache ▸ cached)
  | stored m missed stored charged answer =>
    exact .stored m (by rw [← duplicateOf_calm hc, missed]) (stored.between hc hc')
      (charged.between hc hc') answer

end Frames

/-! Charges -/

section Charges
variable {w : World} {u : String} {size : Int}

theorem get_chargeRow (k : String) : (w.chargeRow u size).quotas.get k =
    if k = u then (w.quotas.get u).map (·.charge size) else w.quotas.get k := get_updateQuota

/-- A charge without a row changes nothing that can be looked up. -/
theorem calm_chargeRow (h : w.quotas.get u = none) : Calm w (w.chargeRow u size) := by
  have hget (k : String) : (w.chargeRow u size).quotas.get k = w.quotas.get k := by
    rw [get_chargeRow]
    split
    · next hk => rw [hk, h]; rfl
    · rfl
  exact ⟨⟨fun _ => rfl, rfl, rfl, fun k => ⟨fun q hq => (hget k).trans hq,
    fun q hq => Or.inl ((hget k).symm.trans hq)⟩, Nat.le_refl _, rfl⟩, rfl⟩

end Charges

/-! The quota row an upload is checked against -/

/-- What `getOrCreateQuota` has read: the cached copy, or else the row, which is then cached. -/
structure QuotaRead (env : Env) (userId : String) (w : World) (q : UserQuota) (w' : World) :
    Prop where
  calm : Calm w w'
  source : (∃ e, w.quotaCache (cacheKey userId) = some e ∧ ofCached e = .ok q ∧ w' = w) ∨
    (w.quotaCache (cacheKey userId) = none ∧ ∃ u, env.uuidIn userId = some u ∧
      w'.quotas.get u = some q ∧
      (w.quotas.get u = some q ∨ w.quotas.get u = none ∧ q = env.defaultQuota w u) ∧
      w'.quotaCache = Function.update w.quotaCache (cacheKey userId) (some (toCached q)))

section QuotaReads
variable {env : Env} {userId : String} {w : World}

theorem findOrInsertRow_ends : ProgE.Ends env.exec (findOrInsertRow userId) w
    (fun q w' => Calm w w' ∧ w'.quotaCache = w.quotaCache ∧ ∃ u, env.uuidIn userId = some u ∧
      w'.quotas.get u = some q ∧
      (w.quotas.get u = some q ∨ w.quotas.get u = none ∧ q = env.defaultQuota w u))
    (fun _ w' => Calm w w' ∧ w'.quotaCache = w.quotaCache) := by
  cases hu : env.uuidIn userId with
  | none =>
    refine ProgE.Ends.bind (Q := fun _ _ => False) (ends_await fun r u he => ?_) fun _ _ h => h.elim
    simp only [Env.exec, hu] at he
    obtain ⟨rfl, rfl⟩ := Prod.mk.inj he
    exact ⟨Calm.refl w, rfl⟩
  | some u =>
    have hfind (w : World) : env.exec (.findQuota userId) w = (.ok (w.quotas.get u), w) := by
      simp only [Env.exec, hu]
    refine ends_await_bind (hfind w) ?_
    cases hq : w.quotas.get u with
    | some q => exact ProgE.ends_pure ⟨Calm.refl w, rfl, u, rfl, hq, Or.inl hq⟩
    | none =>
      have hins : env.exec (.insertQuotaOrIgnore userId) w = (.ok (),
          { w with quotas := w.quotas.insert (env.defaultQuota w u), drawn := w.drawn + 1 }) := by
        simp only [Env.exec, hu]
      have hget : (w.quotas.insert (env.defaultQuota w u)).get u = some (env.defaultQuota w u) := by
        rw [get_insertQuota, if_pos rfl, hq, Option.getD_none]
      have hcalm := @calm_exec env w (.insertQuotaOrIgnore userId) rfl
      rw [hins] at hcalm
      refine ends_await_bind hins (ends_await_bind (hfind _) ?_)
      simp only [hget]
      exact ProgE.ends_pure ⟨hcalm, rfl, u, rfl, hget, Or.inr ⟨hq, rfl⟩⟩

theorem getOrCreateQuota_ends : ProgE.Ends env.exec (getOrCreateQuota userId) w
    (QuotaRead env userId w) (fun _ w' => Calm w w' ∧ w'.quotaCache = w.quotaCache) := by
  refine ends_quietly_bind (v := w.quotaCache (cacheKey userId)) (u := w) rfl ?_
  cases hc : w.quotaCache (cacheKey userId) with
  | some e =>
    refine ends_sync (fun q hq => ⟨Calm.refl w, Or.inl ⟨e, hc, hq, rfl⟩⟩)
      fun _ _ => ⟨Calm.refl w, rfl⟩
  | none =>
    refine ProgE.Ends.bind findOrInsertRow_ends fun q w₁ h => ?_
    obtain ⟨hcalm, hcache, u, hu, hq, hsource⟩ := h
    have hset := @calm_exec env w₁
      (.setQuota (cacheKey userId) (toCached q) QUOTA_CACHE_TTL_MS) rfl
    refine ends_quietly_bind (v := ()) rfl (ProgE.ends_pure ?_)
    exact ⟨hcalm.trans hset, Or.inr ⟨hc, u, hu, hq, hsource, by rw [← hcache]⟩⟩

/-- A relation that the row's lookup respects, and the fill of the entry with the row. -/
structure QuotaReadRel (env : Env) (userId : String) (S : World → World → Prop) : Prop where
  refl : ∀ w, S w w
  trans : ∀ u v w, S u v → S v w → S u w
  lookup : ∀ w, ProgE.Ends env.exec (findOrInsertRow userId) w (fun _ => S w) fun _ => S w
  fill : ∀ {w u q}, env.uuidIn userId = some u → w.quotas.get u = some q →
    S w { w with quotaCache := Function.update w.quotaCache (cacheKey userId) (some (toCached q)) }

theorem getOrCreateQuota_rel {S : World → World → Prop} (hS : QuotaReadRel env userId S) :
    ProgE.Ends env.exec (getOrCreateQuota userId) w (fun _ => S w) fun _ => S w := by
  refine ends_quietly_bind (v := w.quotaCache (cacheKey userId)) (u := w) rfl ?_
  cases w.quotaCache (cacheKey userId) with
  | some e => exact ends_sync (fun _ _ => hS.refl w) fun _ _ => hS.refl w
  | none =>
    refine ProgE.Ends.bind ((findOrInsertRow_ends.and (hS.lookup w)).mono (fun _ _ h => h)
      fun _ _ h => h.2) fun q w₁ h => ?_
    -- the entry is filled with the row that was read
    obtain ⟨⟨-, -, u, hu, hq, -⟩, hkept⟩ := h
    refine ends_quietly_bind (v := ()) rfl (ProgE.ends_pure ?_)
    exact hS.trans _ _ _ hkept (hS.fill hu hq)

theorem checkQuota_rel {S : World → World → Prop} (hS : QuotaReadRel env userId S) (n : JsNumber) :
    ProgE.Ends env.exec (checkQuota userId n) w (fun _ => S w) fun _ => S w :=
  ProgE.Ends.bind_trans hS.trans (ends_sync (fun _ _ => hS.refl w) fun _ _ => hS.refl w)
    fun _ _ => ProgE.Ends.bind_trans hS.trans (getOrCreateQuota_rel hS) fun _ u =>
      ProgE.ends_pure (hS.refl u)

theorem enforceQuota_rel {S : World → World → Prop} (hS : QuotaReadRel env userId S) (n : JsNumber) :
    ProgE.Ends env.exec (enforceQuota userId n) w (fun _ => S w) fun _ => S w :=
  ProgE.Ends.bind_trans hS.trans (checkQuota_rel hS n) fun _ u =>
    ends_sync (fun _ _ => hS.refl u) fun _ _ => hS.refl u

/-- An upload that is let through has read a quota that leaves room for it. -/
theorem enforceQuota_ends (size : ℕ) : ProgE.Ends env.exec (enforceQuota userId (.int size)) w
    (fun _ w' => validateBlobSize (.int size) = .ok () ∧
      ∃ q, QuotaRead env userId w q w' ∧ exceeded q size = none)
    (fun e w' => Calm w w' ∧ (e.Ordinary ∨ ∃ q reason, QuotaRead env userId w q w' ∧
      exceeded q size = some reason ∧ e = .quotaExceeded (checkResult q size))) := by
  refine ProgE.Ends.bind (Q := fun r w' => validateBlobSize (.int size) = .ok () ∧
    ∃ q, QuotaRead env userId w q w' ∧ r = checkResult q size)
    (ends_sync_bind (fun e he => ⟨Calm.refl w, Or.inl (throwIf_error he ▸ trivial)⟩)
      fun _ hsize => ?_) fun r w' h => ?_
  · refine ProgE.Ends.bind ((getOrCreateQuota_ends.and_throws
      (getOrCreateQuota_ordinary userId)).mono (fun _ _ h => h) fun _ _ h => ⟨h.1.1, Or.inl h.2⟩)
      fun q w' h => ProgE.ends_pure ⟨hsize, q, h, rfl⟩
  · obtain ⟨hsize, q, hq, rfl⟩ := h
    refine ends_sync (fun _ hok => ⟨hsize, q, hq, ?_⟩) fun e he => ⟨hq.calm, Or.inr ?_⟩
    · have h := throwIf_eq_ok.mp hok
      simpa [checkResult] using h
    · cases hr : exceeded q size with
      | none =>
        simp only [throwIf, checkResult, hr] at he
        exact absurd he (by simp)
      | some reason => exact ⟨q, reason, hq, hr, throwIf_error he⟩

end QuotaReads

/-! The parts of an upload -/

section Parts
variable {env : Env} {ownerId : String} {file : File} {context : MediaContext}
  {thumbnailFile : Option File} {sharedWith : Option (List String)} {w : World}

theorem findDuplicate_ends (key : String) : ProgE.Ends env.exec (findDuplicate ownerId key) w
    (fun r w' => w' = w ∧ r = duplicateOf env w ownerId key) (fun _ w' => w' = w) := by
  refine ends_await_bind (v := w.dedupCache key) (u := w) rfl ?_
  cases hid : truthy (w.dedupCache key) with
  | none => exact ProgE.ends_pure ⟨rfl, by simp [duplicateOf, hid]⟩
  | some id =>
    refine ends_await fun r u he => ?_
    simp only [Env.exec] at he
    split at he
    · next v i hv hi =>
      obtain ⟨rfl, rfl⟩ := Prod.mk.inj he
      exact ⟨rfl, by simp [duplicateOf, hid, hv, hi]⟩
    · obtain ⟨rfl, rfl⟩ := Prod.mk.inj he
      rfl

theorem buildUploadResponse_ends (media : Media) :
    ProgE.Ends env.exec (buildUploadResponse env media) w
      (fun dto w' => w' = w ∧ dto.media_id = media.id) (fun _ _ => False) := by
  have hpresign {α : Type} {Q : α → World → Prop} {f : Option SignedUrl → Svc α}
      (path : Option String) (n : Int)
      (hf : ∀ url, ProgE.Ends env.exec (f url) w Q fun _ _ => False) :
      ProgE.Ends env.exec (presignTruthy path n >>= f) w Q fun _ _ => False := by
    refine ProgE.Ends.bind (Q := fun _ w' => w' = w) ?_ fun url w' h => h ▸ hf url
    unfold presignTruthy
    split
    · exact ends_await_bind (v := _) (u := w) rfl (ProgE.ends_pure rfl)
    · exact ProgE.ends_pure rfl
  refine hpresign _ _ fun url => hpresign _ _ fun thumbnail_url => ?_
  exact ends_await_bind (v := w.now) (u := w) rfl (ProgE.ends_pure ⟨rfl, rfl⟩)

/-- The thumbnail is put under a key of the id, or the upload is refused. -/
theorem storeThumbnail_ends (id : String) :
    ProgE.Ends env.exec (storeThumbnail ownerId id thumbnailFile) w
      (fun path w' => (thumbnailFile = none ∧ path = none ∧ w' = w) ∨
        ∃ thumbnail p, thumbnailFile = some thumbnail ∧ path = some p ∧
          buildPath .thumbnails ownerId id = .ok p ∧
          w' = { w with
            bucket := Function.update w.bucket p (some (fileObject thumbnail))
            lastModified := w'.lastModified })
      (fun _ w' => w' = w) := by
  cases thumbnailFile with
  | none => exact ProgE.ends_pure (Or.inl ⟨rfl, rfl, rfl⟩)
  | some thumbnail =>
    refine ends_sync_bind (fun _ _ => rfl) fun _ _ => ends_sync_bind (fun _ _ => rfl) fun p hp => ?_
    refine ends_await_bind (v := ()) rfl (ProgE.ends_pure (Or.inr ?_))
    exact ⟨thumbnail, p, rfl, rfl, hp, rfl⟩

theorem computeExpiresAt_ends : ProgE.Ends env.exec (computeExpiresAt env context) w
    (fun r w' => w' = w ∧ r = expiryAt env context w.now) (fun _ _ => False) := by
  unfold computeExpiresAt expiryAt
  split
  · exact ends_await_bind (v := w.now) (u := w) rfl (ProgE.ends_pure ⟨rfl, rfl⟩)
  · exact ProgE.ends_pure ⟨rfl, rfl⟩

/-- Deletes of keys of one id. -/
structure DeletedUnder (id : String) (w w' : World) : Prop where
  bucket : ∀ key, ¬ PathOf id key → w'.bucket key = w.bucket key
  rest : w' = { w with bucket := w'.bucket }

theorem deleteStored_ends {id path : String} {thumbnailPath : Option String}
    (hpath : PathOf id path) (hthumb : ∀ p, thumbnailPath = some p → PathOf id p) :
    ProgE.Ends env.exec (deleteStored path thumbnailPath) w
      (fun _ w' => DeletedUnder id w w') (fun _ _ => False) := by
  have hdelete {w : World} {p : String} (hp : PathOf id p) :
      DeletedUnder id w { w with bucket := Function.update w.bucket p none } := by
    refine ⟨fun key hkey => Function.update_of_ne ?_ _ _, rfl⟩
    rintro rfl
    exact hkey hp
  refine ends_quietly_bind (v := ()) rfl ?_
  split
  · next p hp =>
    have hp' := hthumb p (Option.filter_eq_some_iff.mp hp).1
    refine ProgE.Ends.tryCatch (E := fun _ _ => False) (ends_await_ok rfl ?_) fun _ _ h => h.elim
    have h := (hdelete (w := { w with bucket := Function.update w.bucket path none }) hp').bucket
    exact ⟨fun key hkey => (h key hkey).trans ((hdelete hpath).bucket key hkey), rfl⟩
  · exact ProgE.ends_pure (hdelete hpath)

/-- The row is inserted as Postgres reads it, or the stored objects are deleted. -/
theorem saveMedia_ends {media : Media}
    (hpath : ∀ path, media.RefersTo path → PathOf media.id path) :
    ProgE.Ends env.exec (saveMedia ownerId media) w
      (fun _ w' => ∃ m, env.mediaIn w.now media = some m ∧ env.uuidIn ownerId = some m.ownerId ∧
        w.media.get m.id = none ∧ w' = { w with media := w.media.insert m })
      (fun _ w' => DeletedUnder media.id w w') := by
  refine ProgE.Ends.tryCatch (E := fun _ w' => w' = w) (ends_await fun r u he => ?_) ?_
  · rcases exec_saveMedia he with ⟨m, rfl, hin, ho, hfresh, rfl⟩ | ⟨e, rfl, rfl⟩
    · exact ⟨m, hin, ho, hfresh, rfl⟩
    · rfl
  · rintro e _ rfl
    refine ProgE.Ends.bind ((deleteStored_ends (hpath _ (Or.inl rfl)) fun p hp =>
      hpath p (Or.inr hp)).mono (fun _ _ h => h) fun _ _ h => h.elim) fun _ w' h => ?_
    exact ProgE.ends_throw h

/-- A fresh upload inserts a row under the id it has drawn; if it fails, what it has put may be
left under keys of this id. -/
theorem storeNew_ends :
    ProgE.Ends env.exec (storeNew env ownerId file context thumbnailFile sharedWith) w
      (fun media w' => ∃ m, media.id = m.id ∧ m.id = env.randomUUID w.drawn ∧
        RowOf env ownerId file context thumbnailFile w.now m ∧ w.media.get m.id = none ∧
        w' = { w with
          drawn := w.drawn + 1
          media := w.media.insert m
          bucket := putAll w.bucket m.storagePath file m.thumbnailPath thumbnailFile
          lastModified := w'.lastModified })
      (fun _ w' => Quiet w w' ∨ Orphaned env w w') := by
  have hdrawn : DrawnBetween env w { w with drawn := w.drawn + 1 } (env.randomUUID w.drawn) :=
    ⟨w.drawn, Nat.le_refl _, Nat.lt_succ_self _, rfl⟩
  have horphan {b : String → Option StoredObject} {l : String → Int}
      (hb : ∀ key, ¬ PathOf (env.randomUUID w.drawn) key → b key = w.bucket key) :
      Orphaned env w { w with drawn := w.drawn + 1, bucket := b, lastModified := l } :=
    ⟨rfl, ⟨_, hdrawn, hb⟩, rfl, fun _ => QuotaKept.of_eq rfl, rfl⟩
  have hput {b : String → Option StoredObject} {p key : String} {o : StoredObject}
      (hp : PathOf (env.randomUUID w.drawn) p) (hkey : ¬ PathOf (env.randomUUID w.drawn) key) :
      Function.update b p (some o) key = b key := by
    refine Function.update_of_ne ?_ _ _
    rintro rfl
    exact hkey hp
  refine ends_await_bind (v := env.randomUUID w.drawn) rfl (ends_sync_bind (fun _ _ => ?_)
    fun path hpath => ends_await_bind (v := ()) rfl ?_)
  · exact Or.inl (@quiet_exec env _ .randomUUID rfl)
  have hmain : PathOf (env.randomUUID w.drawn) path := ⟨_, _, hpath⟩
  refine ProgE.Ends.bind ((storeThumbnail_ends _).mono (fun _ _ h => h) fun e w' h => ?_)
    fun thumb w₁ hthumb => ?_
  · rw [h]
    exact Or.inr (horphan fun key hkey => hput hmain hkey)
  refine ProgE.Ends.bind (computeExpiresAt_ends.mono (fun _ _ h => h) fun _ _ h => h.elim)
    fun expiresAt w₂ hexp => ?_
  obtain ⟨hw₂, rfl⟩ := hexp
  subst hw₂
  -- the row's keys are keys of the id, and its objects are the ones that were put
  obtain ⟨hnow, hw₂, hpaths, hshape⟩ : w₂.now = w.now ∧
      w₂ = { w with
        drawn := w.drawn + 1
        bucket := putAll w.bucket path file thumb thumbnailFile
        lastModified := w₂.lastModified } ∧
      (∀ p, thumb = some p → PathOf (env.randomUUID w.drawn) p) ∧
      (thumbnailFile = none ∧ thumb = none ∨ ∃ p, thumbnailFile.isSome ∧ thumb = some p ∧
        buildPath .thumbnails ownerId (env.randomUUID w.drawn) = .ok p) := by
    rcases hthumb with ⟨rfl, rfl, rfl⟩ | ⟨thumbnail, p, rfl, rfl, hp, hw₂⟩
    · exact ⟨rfl, rfl, fun _ h => absurd h (by simp), Or.inl ⟨rfl, rfl⟩⟩
    · refine ⟨by rw [hw₂], hw₂, fun p' h => ?_, Or.inr ⟨p, rfl, rfl, hp⟩⟩
      obtain rfl := Option.some.inj h
      exact ⟨_, _, hp⟩
  have hbucket : ∀ key, ¬ PathOf (env.randomUUID w.drawn) key →
      putAll w.bucket path file thumb thumbnailFile key = w.bucket key := by
    intro key hkey
    have hne {p : String} (hp : PathOf (env.randomUUID w.drawn) p) : key ≠ p := fun h => hkey (h ▸ hp)
    exact putAll_other (hne hmain) fun p hp => hne (hpaths p hp)
  refine ProgE.Ends.bind ((saveMedia_ends ?_).mono (fun _ _ h => h) fun e w' h => ?_)
    fun _ w' h => ?_
  · rintro p (rfl | hp)
    · exact hmain
    · exact hpaths p hp
  · rw [h.rest, hw₂]
    refine Or.inr (horphan fun key hkey => ?_)
    rw [h.bucket key hkey, hw₂]
    exact hbucket key hkey
  · obtain ⟨m, hin, ho, hfresh, rfl⟩ := h
    obtain ⟨hid, -, -, hm⟩ := mediaIn_eq hin
    have hid' : m.id = env.randomUUID w.drawn := by
      rw [show (newMedia (env.randomUUID w.drawn) ownerId file context path thumb _ _).id =
        env.randomUUID w.drawn from rfl, env.randomUUID_canonical] at hid
      exact (Option.some.inj hid).symm
    refine ProgE.ends_pure ⟨m, hid'.symm, hid', ?_, ?_, ?_⟩
    · rw [hm]
      refine ⟨ho, rfl, rfl, rfl, rfl, ?_, ?_, ?_⟩
      · exact congrArg (expiryAt env context) hnow
      · show buildPath _ ownerId m.id = .ok path
        rw [hid']
        exact hpath
      · show thumbnailFile = none ∧ thumb = none ∨ ∃ p, thumbnailFile.isSome ∧ thumb = some p ∧
          buildPath .thumbnails ownerId m.id = .ok p
        rw [hid']
        exact hshape
    · rw [hw₂] at hfresh
      exact hfresh
    · rw [hw₂, show m.storagePath = path by rw [hm]; rfl, show m.thumbnailPath = thumb by rw [hm]; rfl]

theorem exec_chargeQuota {u : String} (hu : env.uuidIn ownerId = some u) (n : Int) :
    env.exec (.chargeQuota ownerId n) w =
      (.ok (if (w.quotas.get u).isSome then 1 else 0), w.chargeRow u n) := by
  simp only [Env.exec, hu]
  rfl

/-- The world after a charge and the invalidation of the cached quota. -/
def chargedWorld (w : World) (ownerId u : String) (size : Int) : World :=
  { w.chargeRow u size with
    quotaCache := Function.update w.quotaCache (cacheKey ownerId) none }

/-- The charge of an upload whose row is stored; it fails only if its owner has no quota row. -/
theorem recordUpload_ends {u : String} (size : ℕ) (hu : env.uuidIn ownerId = some u)
    (hsize : validateBlobSize (.int size) = .ok ()) :
    ProgE.Ends env.exec (recordUpload ownerId (.int size)) w
      (fun _ w' => (w.quotas.get u).isSome ∧ w' = chargedWorld w ownerId u size)
      (fun _ w' => w.quotas.get u = none ∧ Calm w w') := by
  unfold recordUpload
  rw [hsize]
  refine ends_await_bind (exec_chargeQuota hu size) (ends_sync_bind (fun e he => ?_) fun _ hok => ?_)
  · have hnone : w.quotas.get u = none := by
      have h := enforceAffected_error he
      split at h
      · exact absurd h (by simp)
      · next hs => simpa using hs
    exact ⟨hnone, calm_chargeRow hnone⟩
  · have hsome : (w.quotas.get u).isSome := by
      by_contra hs
      exact enforceAffected_ok hok (if_neg hs)
    exact ends_quietly_bind (v := ()) rfl (ends_await_ok (v := ()) rfl ⟨hsome, rfl⟩)

theorem mergeSharedWith_ends (existing : Media) :
    ProgE.Ends env.exec (mergeSharedWith ownerId existing sharedWith) w
      (fun _ w' => Quiet w w') (fun _ w' => Quiet w w') :=
  ends_quiet (faithful_exec env) (mergeSharedWith_touches ownerId existing sharedWith) (by decide)

/-- What is left to do of an upload once its row is stored. -/
theorem afterStored_ends {media m : Media} {w₀ w₁ : World} {q : UserQuota}
    (hread : QuotaRead env ownerId w₀ q w₁)
    (hmiss : duplicateOf env w₀ ownerId (uploadKey env ownerId file context) = none)
    (hsize : validateBlobSize (.int file.size) = .ok ()) (hid : media.id = m.id)
    (hs : Stored env ownerId file context thumbnailFile w₁ w m)
    (hquotas : w.quotas = w₁.quotas) :
    ProgE.Ends env.exec (recordUpload ownerId (.int file.size) >>= fun _ =>
        buildUploadResponse env media) w
      (fun dto => UploadDone env ownerId file context thumbnailFile w₀ (.ok dto))
      (fun e => UploadDone env ownerId file context thumbnailFile w₀ (.error e)) := by
  refine ProgE.Ends.bind ((recordUpload_ends file.size hs.row.owner hsize).mono (fun _ _ h => h)
    fun e w' h => ?_) fun _ w' h => ?_
  · -- the quota row is gone, so the check has read a cached copy
    obtain ⟨hnone, hc⟩ := h
    rw [hquotas] at hnone
    refine .uncharged m (hs.between hread.calm hc)
      (fun k => ((hread.calm.quotas k).trans (QuotaKept.of_eq hquotas)).trans (hc.quotas k))
      ((hread.calm.quotas _).none hnone) ?_
    rcases hread.source with ⟨e, he, -⟩ | ⟨-, u, hu, hrow, -⟩
    · rw [he]
      rfl
    · obtain rfl := Option.some.inj (hs.row.owner.symm.trans hu)
      exact absurd (hrow.symm.trans hnone) (by simp)
  · -- the row is charged, and the answer names the new media
    obtain ⟨hsome, rfl⟩ := h
    refine (buildUploadResponse_ends media).mono (fun dto w' h => ?_) fun _ _ h => h.elim
    obtain ⟨rfl, hdto⟩ := h
    obtain ⟨q₁, hq₁⟩ := Option.isSome_iff_exists.mp hsome
    refine .stored m hmiss ?_ ?_ (hdto.trans hid)
    · have hs' := hs.between hread.calm (Calm.refl w)
      exact ⟨hs'.row, hs'.id, hs'.fresh, hs'.media, hs'.bucket, hs'.dedup, hs'.now⟩
    · have hget (k : String) := @get_chargeRow w m.ownerId file.size k
      refine Charged.between ⟨⟨m.ownerId, q₁, hs.row.owner, Or.inl (hquotas ▸ hq₁), ?_⟩,
        fun k hk => ?_⟩ hread.calm (Calm.refl _)
      · exact (hget _).trans (by rw [if_pos rfl, hq₁, Option.map_some])
      · have hk' : k ≠ m.ownerId := fun h => hk (h ▸ hs.row.owner)
        have hsame : (chargedWorld w ownerId m.ownerId file.size).quotas.get k =
            w₁.quotas.get k := (hget k).trans (by rw [if_neg hk', hquotas])
        exact ⟨fun q hq => hsame.trans hq, fun q hq => Or.inl (hsame.symm.trans hq)⟩

theorem uploadHeld_ends :
    ProgE.Ends env.exec (uploadHeld env ownerId file context thumbnailFile sharedWith) w
      (fun dto => UploadDone env ownerId file context thumbnailFile w (.ok dto))
      (fun e => UploadDone env ownerId file context thumbnailFile w (.error e)) := by
  -- what happens before a stage that leaves all as it is counts from the start
  have hbefore {w₀ w : World} {x : Svc UploadMediaResponseDto} (hi : Idle w₀ w)
      (hx : ProgE.Ends env.exec x w
        (fun dto => UploadDone env ownerId file context thumbnailFile w (.ok dto))
        (fun e => UploadDone env ownerId file context thumbnailFile w (.error e))) :
      ProgE.Ends env.exec x w
        (fun dto => UploadDone env ownerId file context thumbnailFile w₀ (.ok dto))
        (fun e => UploadDone env ownerId file context thumbnailFile w₀ (.error e)) :=
    hx.mono (fun _ w' h => h.between hi (Calm.refl w')) fun _ w' h => h.between hi (Calm.refl w')
  refine ends_idle_bind (faithful_exec env) (authorizeGroupIconUpload_touches env context ownerId)
    (by decide) (fun _ _ h => .refused h.toQuiet) fun _ w₀ h₀ => hbefore h₀ ?_
  refine ProgE.Ends.bind ((enforceQuota_ends file.size).mono (fun _ _ h => h)
    fun _ _ h => .refused h.1.toQuiet) fun _ w₁ h₁ => ?_
  obtain ⟨hsize, q, hread, -⟩ := h₁
  refine ends_idle_bind (faithful_exec env) (validateFile_touches env file context) (by decide)
    (fun _ _ h => .refused (hread.calm.trans h.toCalm).toQuiet) fun _ w₂ h₂ => ?_
  have hc := hread.calm.trans h₂.toCalm
  refine ProgE.Ends.bind ((findDuplicate_ends _).mono (fun _ _ h => h) fun _ w' h => ?_)
    fun existing w₃ h => ?_
  · exact h ▸ .refused hc.toQuiet
  obtain ⟨rfl, hdup⟩ := h
  rw [duplicateOf_calm hc] at hdup
  cases existing with
  | some existing =>
    refine ProgE.Ends.bind ((mergeSharedWith_ends existing).mono (fun _ _ h => h) fun _ _ h =>
      .refused (hc.toQuiet.trans h)) fun _ w₄ h₄ => ?_
    refine (buildUploadResponse_ends existing).mono (fun dto w' h => ?_) fun _ _ h => h.elim
    obtain ⟨rfl, hdto⟩ := h
    exact .reused existing hdup.symm (hc.toQuiet.trans h₄) hdto
  | none =>
    refine ProgE.Ends.bind (storeNew_ends.mono (fun _ _ h => h) fun _ w' h => ?_)
      fun media w₄ h => ?_
    · -- the INSERT has not been made, or its objects were left behind
      rcases h with h | h
      · exact .refused (hc.toQuiet.trans h)
      · exact .orphaned (h.between hc (Calm.refl w'))
    · obtain ⟨m, hid, hdrawn, hrow, hfresh, hw₄⟩ := h
      generalize w₄.lastModified = l at hw₄
      subst hw₄
      have hdb : DrawnBetween env w₃ { w₃ with drawn := w₃.drawn + 1 } m.id :=
        ⟨w₃.drawn, Nat.le_refl _, Nat.lt_succ_self _, hdrawn⟩
      refine ends_await_bind (v := ()) rfl (afterStored_ends hread hdup.symm hsize hid ?_ ?_)
      · rw [hid]
        refine Stored.between (w := w₃) ?_ h₂.toCalm (Calm.refl _)
        exact ⟨hrow, hdb, hfresh, rfl, rfl, rfl, rfl⟩
      · exact h₂.quotaRows

/-- A slot is given back without a failure. -/
theorem releaseSemaphore_ends : ProgE.Ends env.exec (releaseSemaphore ownerId) w
    (fun _ w' => Idle w w') (fun _ _ => False) := by
  have hdecr := @idle_exec env w (.decr (semaphoreKey ownerId)) rfl
  refine ends_await_bind (v := _) rfl ?_
  split
  · refine ends_await_ok (v := ()) rfl (hdecr.trans ?_)
    exact @idle_exec env _ (.del (semaphoreKey ownerId)) rfl
  · exact ProgE.ends_pure hdecr

/-- What an upload has done when it has run alone. -/
theorem upload_ends :
    ProgE.Ends env.exec (upload env ownerId file context thumbnailFile sharedWith) w
      (fun dto => UploadDone env ownerId file context thumbnailFile w (.ok dto))
      (fun e => UploadDone env ownerId file context thumbnailFile w (.error e)) := by
  refine ends_idle_bind (faithful_exec env) (acquireSemaphore_touches ownerId) (by decide)
    (fun _ _ h => .refused h.toQuiet) fun _ w₁ h₁ => ?_
  refine ProgE.Ends.ensuring uploadHeld_ends (fun dto w' h => ?_) fun e w' h => ?_
  all_goals
    refine releaseSemaphore_ends.mono (fun _ w'' hr => ?_) fun _ _ h => h.elim
    exact h.between h₁ hr.toCalm

end Parts

end WhisprMedia
