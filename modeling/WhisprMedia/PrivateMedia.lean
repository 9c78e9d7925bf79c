import WhisprMedia.Confidentiality
import WhisprMedia.MetadataCache
import Mathlib.Data.Multiset.Bind

/-! A private media is handed out to its owner and to the users he has listed for it: what uploads
store, what reads check, and what every reply of the service discloses. -/
namespace WhisprMedia
open Awaiting Keyed MediaService QuotaService StorageService

section Uploads
variable {env : Env} {w w' : World} {g : ListWork} {m m' : Multiset Grant} {ownerId : String}
  {sharedWith : Option (List String)}

theorem ConfInv.mono (h : ConfInv env w m) (hm : ∀ x ∈ m, x ∈ m') : ConfInv env w m' := by
  refine ⟨h.stores, fun k r hr v hv => hm _ (h.granted k r hr v hv), h.paths, fun key e he => ?_⟩
  obtain ⟨r, hr, ho, hctx, hacl⟩ := h.entries key e he
  exact ⟨r, hr, ho, hctx, fun v hv => ⟨(hacl v hv).1, hm _ (hacl v hv).2⟩⟩

/-- A duplicate is a row of the uploader. -/
theorem findDuplicate_conf {context : MediaContext} {digest : List (Fin 16)} :
    (confDiscipline env).Keeps (findDuplicate ownerId (dedupKey ownerId context digest)) g w m
      (fun r g' w' m' => g'.call = g.call ∧ ∀ existing, r = some existing →
        Justified env existing w' m' ∧ env.uuidIn ownerId = some existing.ownerId ∧
        ∀ uid ∈ g.call.listed, ∀ v, env.uuidIn uid = some v →
          (g.call.requester?.bind env.uuidIn, existing.id, v) ∈ m') Anything := by
  refine Discipline.Keeps.bind ((keeps_await_neutral (conf_neutral rfl (by simp [Cmd.family]))).mono
    (fun _ _ _ _ _ h => h) fun _ _ _ _ _ _ => trivial) fun r g' w₁ m₁ hi₁ h => ?_
  obtain ⟨rfl, ha⟩ := h.now hi₁
  split
  · next i hi =>
    obtain ⟨rfl, -⟩ := Option.filter_eq_some_iff.mp hi
    obtain ⟨w₀, u, m₀, -, hi₀, -, he, -, hr₁, hr₂⟩ := ha.answered
    obtain ⟨row, hrow, ho⟩ := hi₀.stores.dedup ownerId context digest i
      (Except.ok.inj (Prod.mk.inj he).1)
    refine findMedia_conf.with_rely.mono (fun r g₂ w₂ m₂ _ h₂ => ⟨h₂.1.1, ?_⟩) fun _ _ _ _ _ _ => trivial
    rintro existing rfl
    obtain ⟨hj, hid, hlisted⟩ := h₂.1.2 existing rfl
    refine ⟨hj, ?_, hlisted⟩
    -- the id of the entry is the id of the row it points to
    have hcanon : env.uuidIn i = some i := media_id hrow ▸ (hi₀.stores.canonical _ _ hrow).id
    obtain rfl : i = existing.id := Option.some.inj (hcanon.symm.trans hid)
    obtain ⟨row', hrow', hb'⟩ := ((hr₁.media.trans hr₂.media).trans h₂.2.media) _ row hrow
    obtain ⟨now, hnow, hb⟩ := hj.lives
    obtain rfl := Option.some.inj (hnow.symm.trans hrow')
    rw [ho, ← hb'.ownerId_eq, hb.ownerId_eq]
  · refine Discipline.keeps_pure fun u n _ _ => ⟨rfl, fun existing hex => ?_⟩
    cases hex

/-- A dedup hit writes users who are in the ACL or whom the uploader lists. -/
theorem mergeSharedWith_conf {existing : Media} (hj : Justified env existing w m)
    (hlisted : ∀ uid ∈ sharedWith.getD [], ∀ v, env.uuidIn uid = some v →
      (some existing.ownerId, existing.id, v) ∈ m) :
    (confDiscipline env).Keeps (mergeSharedWith ownerId existing sharedWith) g w m
      (fun _ g' w' m' => g' = g ∧ ConfLater w m w' m') Anything := by
  unfold mergeSharedWith
  dsimp only
  split
  · refine Discipline.Keeps.bind (updateSharedWith_conf hj.canonical.id hj.lives
      fun uid huid v hv => granted_of_merge hj rfl hlisted uid huid v hv) fun _ g₁ w₁ m₁ hi₁ h₁ => ?_
    refine (keeps_await_ok (E := Anything) (conf_neutral rfl (by simp [Cmd.family]))
      fun _ => rfl).mono (fun _ g₂ w₂ m₂ hi₂ h₂ => ?_) fun _ _ _ _ _ _ => trivial
    obtain ⟨rfl, hr⟩ := h₂
    exact h₁ w₂ m₂ hr hi₂
  · exact Discipline.keeps_pure fun u n hr _ => ⟨rfl, hr⟩

/-- The row that an upload has inserted for an entity. -/
structure RowFor (env : Env) (ownerId : String) (media : Media) (w : World) (r : Media) : Prop where
  lives : LivesOn r w
  id : r.id = media.id
  owner : env.uuidIn ownerId = some r.ownerId
  storagePath : r.storagePath = media.storagePath
  thumbnailPath : r.thumbnailPath = media.thumbnailPath

theorem RowFor.later {media r : Media} (h : RowFor env ownerId media w r)
    (hl : ConfLater w m w' m') : RowFor env ownerId media w' r :=
  ⟨h.lives.later hl.media, h.id, h.owner, h.storagePath, h.thumbnailPath⟩

/-- The INSERT of a row whose users the upload lists. -/
theorem saveMedia_conf {media : Media} (hid : env.uuidIn media.id = some media.id)
    (hacl : media.sharedWith = initialSharedWith ownerId sharedWith)
    (hpaths : ∀ key, media.RefersTo key → PathOf media.id key)
    (hrequester : g.call.requester? = some ownerId) (hlisted : g.call.listed = sharedWith.getD []) :
    (confDiscipline env).Keeps (saveMedia ownerId media) g w m
      (fun _ g' w' _ => g'.call = g.call ∧ ∃ r, RowFor env ownerId media w' r) Anything := by
  refine saveMedia_of_insert (fun _ c hc => conf_neutrals (F := [.bucket]) (by decide) (by simp) c
    (by simp [hc])) (keeps_await fun w' f r u hr hinv _ he => ?_)
  have hlater : MediaLater w' u := by
    have h := @mediaLater_exec env (.saveMedia ownerId media) w'
    rwa [he] at h
  have hcall : ((confDiscipline env).next g (.saveMedia ownerId media) r).call = g.call :=
    ListWork.next_call
  rcases exec_saveMedia he with ⟨row, rfl, hin, howner, hfresh, rfl⟩ | ⟨e, rfl, rfl⟩
  · -- the row is there: what it names, its request has granted
    obtain ⟨hid', -, hs, hrow⟩ := mediaIn_eq hin
    have hrid : row.id = media.id := Option.some.inj (hid'.symm.trans hid)
    have hstorage : row.storagePath = media.storagePath := by rw [hrow]
    have hthumb : row.thumbnailPath = media.thumbnailPath := by rw [hrow]
    have hget (k : String) : (w'.media.insert row).get k = if k = row.id then some row
        else w'.media.get k := get_insertMedia hfresh
    have hstores := mediaStores_exec (c := .saveMedia ownerId media) hinv.stores (by simp)
    rw [he] at hstores
    refine ⟨⟨hstores, fun k r' hr' v hv => ?_, fun k r' hr' key hkey => ?_, ?_⟩,
      ⟨hlater, total_subset_next⟩, fun u' n hu _ => ⟨hcall, row, ?_, hrid, howner, hstorage, hthumb⟩⟩
    · replace hr' : (w'.media.insert row).get k = some r' := hr'
      rw [hget] at hr'
      split at hr'
      · next hk =>
        obtain rfl := Option.some.inj hr'
        rw [hacl] at hs
        obtain ⟨uid, huid, huv⟩ := (mem_uuidArrayIn hs).1 v hv
        -- an ACL begins with the users that the request lists
        have hmem : uid ∈ g.call.listed := by
          rw [hlisted]
          exact (mem_otherUsers.mp (mem_initialSharedWith.mp huid)).1
        have haddressed : addressedBy env ⟨.saveMedia ownerId media, .ok ()⟩ = some media.id := hid
        have hgrant := granted_of_next haddressed hmem huv
        rw [hrequester, Option.bind_some, howner] at hgrant
        rw [hk, hrid]
        exact Multiset.mem_add.mpr (Or.inl (Multiset.mem_coe.mpr hgrant))
      · exact total_subset_next _ (hinv.granted k r' hr' v hv)
    · replace hr' : (w'.media.insert row).get k = some r' := hr'
      rw [hget] at hr'
      split at hr'
      · next hk =>
        obtain rfl := Option.some.inj hr'
        rw [hk, hrid]
        refine hpaths key ?_
        unfold Media.RefersTo at hkey ⊢
        rwa [← hstorage, ← hthumb]
      · exact hinv.paths k r' hr' key hkey
    · exact hinv.entries_later ⟨hlater, total_subset_next⟩ fun key e h => h
    · refine (LivesOn.later ⟨row, ?_, Media.Becomes.refl row⟩ hu.media)
      show (w'.media.insert row).get row.id = some row
      rw [hget, if_pos rfl]
  · -- the INSERT has failed, and grants that are not used do no harm
    exact ⟨hinv.mono total_subset_next, ⟨hlater, total_subset_next⟩, fun _ _ _ _ => trivial⟩

theorem storeNew_conf {file : File} {context : MediaContext} {thumbnailFile : Option File}
    (hrequester : g.call.requester? = some ownerId) (hlisted : g.call.listed = sharedWith.getD []) :
    (confDiscipline env).Keeps (storeNew env ownerId file context thumbnailFile sharedWith) g w m
      (fun media g' w' _ => g'.call = g.call ∧ ∃ r, RowFor env ownerId media w' r) Anything := by
  refine storeNew_of_saveMedia (conf_neutrals (by decide) (by simp)) (fun _ _ _ _ => trivial)
    fun media w' m' _ hmedia => ?_
  exact saveMedia_conf hmedia.uuid hmedia.acl hmedia.paths hrequester hlisted

end Uploads

/-! What is handed out -/

/-- All that the reply hands out is of this one media. -/
def Reply.About (media : Media) : Reply → Prop
  | .metadata dto => dto.id = media.id
  | .blobUrl dto => media.RefersTo dto.url.key
  | .thumbnailUrl dto => ∀ u ∈ dto.url, media.RefersTo u.key
  | .blob file => media.RefersTo file.stream.key
  | .thumbnail file => ∀ f ∈ file, media.RefersTo f.stream.key
  | .uploaded dto => dto.media_id = media.id ∧ (∀ u ∈ dto.url, media.RefersTo u.key) ∧
      ∀ u ∈ dto.thumbnail_url, media.RefersTo u.key
  | _ => False

/-- The media is public, the caller's own, or its owner has listed the caller for it. -/
structure Cleared (env : Env) (x : Call) (media : Media) (w : World) (m : Multiset Grant) :
    Prop where
  lives : LivesOn media w
  cleared : media.context ∈ PUBLIC_READABLE_CONTEXTS ∨
    ∃ u, x.requester?.bind env.uuidIn = some u ∧
      (u = media.ownerId ∨ (some media.ownerId, media.id, u) ∈ m)

theorem Cleared.later {env : Env} {x : Call} {media : Media} {w w' : World} {m m' : Multiset Grant}
    (h : Cleared env x media w m) (hl : ConfLater w m w' m') : Cleared env x media w' m' := by
  refine ⟨h.lives.later hl.media, ?_⟩
  rcases h.cleared with hpublic | ⟨u, hu, hown | hgrant⟩
  · exact Or.inl hpublic
  · exact Or.inr ⟨u, hu, Or.inl hown⟩
  · exact Or.inr ⟨u, hu, Or.inr (hl.grants _ hgrant)⟩

/-- Two media by the same id, or with a key in common. -/
def SameMedia (row media : Media) : Prop :=
  row.id = media.id ∨ ∃ key, row.RefersTo key ∧ media.RefersTo key

/-- Each media that a reply discloses is one that the caller is cleared for. -/
def ClearedReply (env : Env) (x : Call) (out : Except Err Reply) (_ : ListWork) (w : World)
    (m : Multiset Grant) : Prop :=
  ∀ rep, out = .ok rep → ∀ row, rep.Discloses row →
    ∃ media, SameMedia row media ∧ Cleared env x media w m

/-- What a reply hands out of one media is of the media that it is about. -/
theorem Reply.Discloses.same {rep : Reply} {row media : Media} (hd : rep.Discloses row)
    (ha : rep.About media) : SameMedia row media := by
  cases rep with
  | uploaded dto =>
    obtain ⟨hid, hurl, hthumb⟩ := ha
    rcases hd with hd | ⟨u, hu, hkey⟩ | ⟨u, hu, hkey⟩
    · exact Or.inl (hd.symm.trans hid)
    · exact Or.inr ⟨u.key, hkey, hurl u hu⟩
    · exact Or.inr ⟨u.key, hkey, hthumb u hu⟩
  | metadata dto => exact Or.inl (Eq.trans (Eq.symm hd) ha)
  | blobUrl dto => exact Or.inr ⟨_, hd, ha⟩
  | thumbnailUrl dto =>
    obtain ⟨u, hu, hkey⟩ := hd
    exact Or.inr ⟨u.key, hkey, ha u hu⟩
  | blob file => exact Or.inr ⟨_, hd, ha⟩
  | thumbnail file =>
    obtain ⟨f, hf, hkey⟩ := hd
    exact Or.inr ⟨f.stream.key, hkey, ha f hf⟩
  | sharedWith _ | userQuota _ | userMedia _ | quota _ | done => exact absurd ha id

section Replies
variable {env : Env} {w w' : World} {g : ListWork} {m m' : Multiset Grant} {ownerId : String}
  {sharedWith : Option (List String)} {file : File} {context : MediaContext}
  {thumbnailFile : Option File}

theorem cleared_of_owner {x : Call} {media : Media} (hlives : LivesOn media w)
    (hx : x.requester? = some ownerId) (ho : env.uuidIn ownerId = some media.ownerId) :
    Cleared env x media w m :=
  ⟨hlives, Or.inr ⟨media.ownerId, by rw [hx, Option.bind_some, ho], Or.inl rfl⟩⟩

theorem buildUploadResponse_conf {x : Call} {media r : Media} (hid : r.id = media.id)
    (hstorage : r.storagePath = media.storagePath) (hthumb : r.thumbnailPath = media.thumbnailPath)
    (hr : (confDiscipline env).Stays (fun w' m' => Cleared env x r w' m') w m) :
    (confDiscipline env).Keeps (buildUploadResponse env media) g w m
      (fun dto _ w' m' => ∃ r, (Reply.uploaded dto).About r ∧ Cleared env x r w' m') Anything := by
  refine (buildUploadResponse_keeps fun c hc => conf_neutrals (F := [.outside]) (by decide) (by simp)
    c (by simp [hc])).mono (fun dto g' w' m' hi h => ?_) fun _ _ _ _ _ _ => trivial
  obtain ⟨-, hl, hdto, hurl, hthumbnail⟩ := h
  refine ⟨r, ⟨hdto.trans hid.symm, fun u hu => ?_, fun u hu => ?_⟩, hr w' m' hl hi⟩
  · exact Or.inl (hstorage.trans (hurl u hu))
  · exact Or.inr (hthumb.trans (hthumbnail u hu))

theorem uploadHeld_conf {x : Call} (hx : x.requester? = some ownerId)
    (hrequester : g.call.requester? = some ownerId) (hlisted : g.call.listed = sharedWith.getD []) :
    (confDiscipline env).Keeps (uploadHeld env ownerId file context thumbnailFile sharedWith) g w m
      (fun dto _ w' m' => ∃ r, (Reply.uploaded dto).About r ∧ Cleared env x r w' m') Anything := by
  refine uploadHeld_of_checked (conf_neutrals (by decide) (by simp)) (fun _ _ _ _ => trivial)
    fun w₃ m₃ _ _ => ?_
  refine Discipline.Keeps.bind findDuplicate_conf fun duplicate g₄ w₄ m₄ hi₄ h₄ => ?_
  obtain ⟨hcall, hfound⟩ := h₄.now hi₄
  cases duplicate with
  | some existing =>
    obtain ⟨hj, ho, hgranted⟩ := hfound existing rfl
    rw [hlisted, hrequester, Option.bind_some, ho] at hgranted
    refine Discipline.Keeps.bind (mergeSharedWith_conf hj hgranted) fun _ g₅ w₅ m₅ hi₅ h₅ => ?_
    refine buildUploadResponse_conf rfl rfl rfl fun u n hr hi => ?_
    exact cleared_of_owner (hj.lives.later (h₅ u n hr hi).2.media) hx ho
  | none =>
    rw [← hcall] at hrequester hlisted
    refine Discipline.Keeps.bind (storeNew_conf hrequester hlisted) fun media g₅ w₅ m₅ hi₅ h₅ => ?_
    obtain ⟨-, r, hrow⟩ := h₅.now hi₅
    refine Discipline.Keeps.bind (Q := fun _ _ w' m' => ConfLater w₅ m₅ w' m') (E := Anything)
      (keeps_await fun w' f a u hr hi _ he => ?_) fun _ g₆ w₆ m₆ hi₆ h₆ => ?_
    · -- the entry points to the row that was inserted
      obtain ⟨now, hnow, hb⟩ := (hrow.later hr).lives
      rw [hrow.id] at hnow
      have hstores := @mediaStores_setDedup env w' hi.stores ownerId media.id context
        (env.sha256 (fileBuffer file)) DEDUP_CACHE_TTL_MS now hnow (hb.ownerId_eq ▸ hrow.owner)
      have hnext : (confDiscipline env).next g₅ (.setDedup _ media.id DEDUP_CACHE_TTL_MS) a = g₅ :=
        ListWork.next_of_unaddressed fun _ => rfl
      rw [hnext]
      have hlater := @mediaLater_exec env (.setDedup (dedupKey ownerId context
        (env.sha256 (fileBuffer file))) media.id DEDUP_CACHE_TTL_MS) w'
      rw [he] at hstores hlater
      obtain ⟨rfl, rfl⟩ := Prod.mk.inj he
      refine ⟨⟨hstores, hi.granted, hi.paths, hi.entries⟩, ConfLater.of_media hlater,
        fun u' n hu _ => ⟨hr.media.trans (hlater.trans hu.media), fun x hx => ?_⟩⟩
      exact hu.grants x (hr.grants x hx)
    · refine keeps_after_touch (recordUpload_touches ownerId _)
        (conf_neutrals (by decide) (by simp)) (fun _ _ _ _ _ => trivial) fun _ w₇ m₇ hr₇ _ => ?_
      refine buildUploadResponse_conf hrow.id hrow.storagePath hrow.thumbnailPath fun u n hr hi => ?_
      have hlives := (hrow.later (h₆ u n ((confDiscipline env).rely_trans hr₇ hr) hi)).lives
      exact cleared_of_owner hlives hx hrow.owner

/-- The access check on a row whose ACL is the owner's doing. -/
theorem cleared_of_access {x : Call} {r : String} {media : Media} {users : Option (List String)}
    (hx : x.requester? = some r) (hlives : LivesOn media w)
    (howner : env.uuidIn media.ownerId = some media.ownerId)
    (husers : ∀ v ∈ users.getD [], env.uuidIn v = some v ∧ (some media.ownerId, media.id, v) ∈ m)
    (h : enforceReadAccess media.context media.ownerId users r = .ok ()) :
    Cleared env x media w m := by
  refine ⟨hlives, ?_⟩
  rw [hx, Option.bind_some]
  rcases enforceReadAccess_iff.mp h with hpublic | rfl | hmem
  · exact Or.inl hpublic
  · exact Or.inr ⟨media.ownerId, howner, Or.inl rfl⟩
  · exact Or.inr ⟨r, (husers r hmem).1, Or.inr (husers r hmem).2⟩

theorem findReadable_conf {x : Call} {id r : String} (hx : x.requester? = some r)
    (hreads : g.call.listed = []) :
    (confDiscipline env).Keeps (findReadable id r) g w m
      (fun media g' w' m' => g' = g ∧ Justified env media w' m' ∧ Cleared env x media w' m')
      Anything := by
  refine (findReadable_keeps (conf_neutral rfl fun _ => hreads)).mono
    (fun media g' w' m' hi h => ?_) fun _ _ _ _ _ _ => trivial
  obtain ⟨rfl, ha, hacc⟩ := h
  obtain ⟨hj, -⟩ := justified_of_answered ha
  refine ⟨rfl, hj, cleared_of_access hx hj.lives hj.canonical.ownerId (fun v hv => ?_) hacc⟩
  exact ⟨hj.canonical.acl v hv, hj.granted v hv⟩

end Replies

/-! Reads -/

section Reads
variable {env : Env} {w : World} {g : ListWork} {m : Multiset Grant} {x : Call} {i r : String}

/-- The entry that a read stores is as justified as the row it was made from. -/
theorem setMeta_conf {key : String} {media : Media} {ttl : ℕ} (hj : Justified env media w m) :
    (confDiscipline env).Keeps (await (.setMeta key ⟨toMetadataDto media, media.sharedWith⟩ ttl))
      g w m (fun _ _ w' m' => ConfLater w m w' m') Anything := by
  refine keeps_await fun w' f a u hr hi _ he => ?_
  have hnext : (confDiscipline env).next g
      (.setMeta key ⟨toMetadataDto media, media.sharedWith⟩ ttl) a = g :=
    ListWork.next_of_unaddressed fun _ => rfl
  rw [hnext]
  have hlater := @mediaLater_exec env (.setMeta key ⟨toMetadataDto media, media.sharedWith⟩ ttl) w'
  rw [he] at hlater
  obtain ⟨rfl, rfl⟩ := Prod.mk.inj he
  refine ⟨⟨?_, hi.granted, hi.paths, fun key' e hent => ?_⟩, ConfLater.of_media hlater,
    fun u' n hu _ => ?_⟩
  · exact mediaStores_exec (c := .setMeta key _ ttl) hi.stores (by simp)
  · by_cases hkey : key' = key
    · obtain rfl : (⟨toMetadataDto media, media.sharedWith⟩ : CachedMeta) = e := by
        simpa [hkey] using hent
      have hj' := hj.later hr
      obtain ⟨row, hrow, hb⟩ := hj'.lives
      refine ⟨row, hrow, hb.ownerId_eq.symm, hb.context_eq.symm, fun v hv => ?_⟩
      rw [hb.ownerId_eq, hb.id_eq]
      exact ⟨hj.canonical.acl v hv, hj'.granted v hv⟩
    · refine hi.entries key' e ?_
      simpa [hkey] using hent
  · exact (confDiscipline env).rely_trans hr ((confDiscipline env).rely_trans
      (ConfLater.of_media hlater) hu)

/-- An entry admits whom the row admits, or whom it has admitted. -/
theorem cleared_of_entry {key : String} {cached : CachedMeta} (hx : x.requester? = some r)
    (hi : ConfInv env w m) (hent : w.metaCache key = some cached)
    (h : enforceReadAccess cached.dto.context cached.dto.ownerId cached.sharedWith r = .ok ()) :
    ∃ media, (Reply.metadata cached.dto).About media ∧ Cleared env x media w m := by
  obtain ⟨row, hrow, howner, hcontext, hacl⟩ := hi.entries key cached hent
  have hid : row.id = cached.dto.id := media_id hrow
  rw [← hid] at hrow
  rw [howner, hcontext] at h
  refine ⟨row, hid.symm, cleared_of_access hx ⟨row, hrow, Media.Becomes.refl row⟩ ?_ hacl h⟩
  exact (hi.stores.canonical _ _ hrow).ownerId

theorem getMetadata_conf (hx : x.requester? = some r) (hreads : g.call.listed = []) :
    (confDiscipline env).Keeps (getMetadata i r) g w m (fun dto _ w' m' =>
      ∃ media, (Reply.metadata dto).About media ∧ Cleared env x media w' m') Anything := by
  refine Discipline.Keeps.bind (getMeta_keeps (conf_neutral rfl (by simp [Cmd.family])))
    fun e g' w₁ m₁ hi₁ h => ?_
  obtain ⟨rfl, w₀, m₀, -, hi₀, rfl, hr₁⟩ := h.now hi₁
  cases hent : w₀.metaCache (metaKey i) with
  | some cached =>
    refine keeps_sync_bind (fun _ _ _ _ _ _ => trivial) fun _ hacc => ?_
    obtain ⟨media, habout, hc⟩ := cleared_of_entry hx hi₀ hent hacc
    refine Discipline.keeps_pure fun u n hr _ => ⟨media, habout, ?_⟩
    exact (hc.later hr₁).later hr
  | none =>
    refine Discipline.Keeps.bind (findReadable_conf hx hreads) fun media g₂ w₂ m₂ hi₂ h₂ => ?_
    obtain ⟨rfl, hj, hc⟩ := h₂.now hi₂
    refine Discipline.Keeps.bind (setMeta_conf hj) fun _ g₃ w₃ m₃ _ h₃ => ?_
    exact Discipline.keeps_pure fun u n hr hi => ⟨media, rfl, hc.later (h₃ u n hr hi)⟩

theorem conf_outside : ∀ c : Cmd, c.family = .outside → (confDiscipline env).Neutral g c :=
  fun c hc => conf_neutrals (F := [.outside]) (by decide) (by simp) c (by simp [hc])

/-- A URL opens the path it was asked for. -/
theorem presign_conf {path : String} {seconds : Int} {media : Media}
    (hc : Cleared env x media w m) :
    (confDiscipline env).Keeps (generatePresignedUrl path seconds) g w m
      (fun url _ w' m' => url.key = path ∧ Cleared env x media w' m') Anything := by
  refine (generatePresignedUrl_keeps conf_outside).mono (fun url g' w' m' _ h => ?_)
    fun _ _ _ _ _ _ => trivial
  obtain ⟨-, hr, rfl⟩ := h
  exact ⟨rfl, hc.later hr⟩

theorem getOrGenerateSignedUrl_conf {media : Media} (hc : Cleared env x media w m) :
    (confDiscipline env).Keeps (getOrGenerateSignedUrl env media r) g w m (fun dto _ w' m' =>
      ∃ media, (Reply.blobUrl dto).About media ∧ Cleared env x media w' m') Anything := by
  refine keeps_after_touch (F := [.outside]) (touches_await (by simp [Cmd.family]))
    (conf_neutrals (by decide) (by simp)) (fun _ _ _ _ _ => trivial) fun now w₁ m₁ hr₁ _ => ?_
  split
  · refine Discipline.Keeps.bind (presign_conf (hc.later hr₁)) fun url g₂ w₂ m₂ _ h₂ => ?_
    refine Discipline.keeps_pure fun u n hr hi => ⟨media, Or.inl ?_, (h₂ u n hr hi).2⟩
    exact (h₂ u n hr hi).1.symm
  · refine Discipline.Keeps.bind (presign_conf (hc.later hr₁)) fun url g₂ w₂ m₂ hi₂ h₂ => ?_
    obtain ⟨hkey, hc₂⟩ := h₂.now hi₂
    refine keeps_after_touch (F := [.mediaExpiry]) (touches_await (by simp [Cmd.family]))
      (conf_neutrals (by decide) (by simp)) (fun _ _ _ _ _ => trivial) fun _ w₃ m₃ hr₃ _ => ?_
    exact Discipline.keeps_pure fun u n hr _ =>
      ⟨media, Or.inl hkey.symm, (hc₂.later hr₃).later hr⟩

theorem getBlob_conf (hx : x.requester? = some r) (hreads : g.call.listed = []) :
    (confDiscipline env).Keeps (getBlob env i r) g w m (fun dto _ w' m' =>
      ∃ media, (Reply.blobUrl dto).About media ∧ Cleared env x media w' m') Anything := by
  refine Discipline.Keeps.bind (findReadable_conf hx hreads) fun media g₁ w₁ m₁ hi₁ h => ?_
  exact getOrGenerateSignedUrl_conf (h.now hi₁).2.2

theorem getThumbnail_conf (hx : x.requester? = some r) (hreads : g.call.listed = []) :
    (confDiscipline env).Keeps (getThumbnail env i r) g w m (fun dto _ w' m' =>
      ∃ media, (Reply.thumbnailUrl dto).About media ∧ Cleared env x media w' m') Anything := by
  refine Discipline.Keeps.bind (findReadable_conf hx hreads) fun media g₁ w₁ m₁ hi₁ h => ?_
  obtain ⟨-, -, hc⟩ := h.now hi₁
  split
  · refine Discipline.keeps_pure fun u n hr _ => ⟨media, fun v hv => ?_, hc.later hr⟩
    exact absurd hv (by simp)
  · next path hpath =>
    obtain ⟨hthumb, -⟩ := Option.filter_eq_some_iff.mp hpath
    refine Discipline.Keeps.bind (presign_conf hc) fun url g₂ w₂ m₂ hi₂ h₂ => ?_
    obtain ⟨hkey, hc₂⟩ := h₂.now hi₂
    refine keeps_after_touch (F := [.outside]) (touches_await (by simp [Cmd.family]))
      (conf_neutrals (by decide) (by simp)) (fun _ _ _ _ _ => trivial) fun _ w₃ m₃ hr₃ _ => ?_
    refine Discipline.keeps_pure fun u n hr _ => ⟨media, fun v hv => ?_, (hc₂.later hr₃).later hr⟩
    obtain rfl := Option.some.inj hv
    exact Or.inr (by rw [hthumb, hkey])

/-- The bytes come from the object that was asked for. -/
theorem getObject_conf {path : String} {media : Media} (hc : Cleared env x media w m) :
    (confDiscipline env).Keeps (await (.getObject path)) g w m
      (fun stream _ w' m' => stream.key = path ∧ Cleared env x media w' m') Anything := by
  refine (keeps_await_neutral (conf_neutral rfl (by simp [Cmd.family]))).mono
    (fun stream g' w' m' _ h => ?_) fun _ _ _ _ _ _ => trivial
  obtain ⟨-, ha⟩ := h
  refine ⟨?_, hc.later ha.rely⟩
  obtain ⟨w₀, u, m₀, -, -, -, he, -⟩ := ha.answered
  simp only [Env.exec] at he
  split at he
  · rw [← Except.ok.inj (Prod.mk.inj he).1]
  · exact absurd (Prod.mk.inj he).1 (by simp)

theorem streamBlob_conf (hx : x.requester? = some r) (hreads : g.call.listed = []) :
    (confDiscipline env).Keeps (streamBlob i r) g w m (fun file _ w' m' =>
      ∃ media, (Reply.blob file).About media ∧ Cleared env x media w' m') Anything := by
  refine Discipline.Keeps.bind (findReadable_conf hx hreads) fun media g₁ w₁ m₁ hi₁ h => ?_
  refine Discipline.Keeps.bind (getObject_conf (h.now hi₁).2.2) fun stream g₂ w₂ m₂ _ h₂ => ?_
  refine Discipline.keeps_pure fun u n hr hi => ⟨media, Or.inl ?_, (h₂ u n hr hi).2⟩
  exact (h₂ u n hr hi).1.symm

theorem streamThumbnail_conf (hx : x.requester? = some r) (hreads : g.call.listed = []) :
    (confDiscipline env).Keeps (streamThumbnail i r) g w m (fun file _ w' m' =>
      ∃ media, (Reply.thumbnail file).About media ∧ Cleared env x media w' m') Anything := by
  refine Discipline.Keeps.bind (findReadable_conf hx hreads) fun media g₁ w₁ m₁ hi₁ h => ?_
  obtain ⟨-, -, hc⟩ := h.now hi₁
  split
  · refine Discipline.keeps_pure fun u n hr _ => ⟨media, fun v hv => ?_, hc.later hr⟩
    exact absurd hv (by simp)
  · next path hpath =>
    obtain ⟨hthumb, -⟩ := Option.filter_eq_some_iff.mp hpath
    refine Discipline.Keeps.bind (getObject_conf hc) fun stream g₂ w₂ m₂ _ h₂ => ?_
    refine Discipline.keeps_pure fun u n hr hi => ⟨media, fun v hv => ?_, (h₂ u n hr hi).2⟩
    obtain rfl := Option.some.inj hv
    exact Or.inr (by rw [hthumb, (h₂ u n hr hi).1])

/-- The rows that are listed for a user are his. -/
theorem exec_listMedia {userId : String} {skip take total : ℕ} {items : List Media}
    (h : env.exec (.listMedia userId skip take) w = (.ok (items, total), w')) :
    w'.media = w.media ∧ ∃ u, env.uuidIn userId = some u ∧
      ∀ media ∈ items, w.media.get media.id = some media ∧ media.ownerId = u := by
  simp only [Env.exec] at h
  split at h
  · next u hu =>
    obtain ⟨hans, rfl⟩ := Prod.mk.inj h
    obtain ⟨rfl, -⟩ := Prod.mk.inj (Except.ok.inj hans)
    refine ⟨rfl, u, hu, fun media hm => ?_⟩
    have hmem := List.mem_mergeSort.mp (List.mem_of_mem_drop (List.mem_of_mem_take hm))
    obtain ⟨hrow, hp⟩ := List.mem_filter.mp ((env.rowOrder_perm _ _).mem_iff.mp hmem)
    simp only [Bool.and_eq_true, decide_eq_true_eq] at hp
    exact ⟨Table.get_key hrow, hp.1.1⟩
  · exact absurd (Prod.mk.inj h).1 (by simp)

/-- Every item of a page is a media of its user. -/
theorem getUserMedia_conf {userId : String} {page limit : ℕ} (hx : x.requester? = some userId)
    (hreads : g.call.listed = []) :
    (confDiscipline env).Keeps (getUserMedia userId page limit) g w m (fun dto _ w' m' =>
      ∀ item ∈ dto.items, ∃ media, media.id = item.id ∧ Cleared env x media w' m') Anything := by
  refine Discipline.Keeps.bind ((keeps_await_neutral (conf_neutral rfl fun _ => hreads)).mono
    (fun _ _ _ _ _ h => h) fun _ _ _ _ _ _ => trivial) fun r g₁ w₁ m₁ hi₁ h => ?_
  obtain ⟨rows, total⟩ := r
  obtain ⟨-, ha⟩ := h.now hi₁
  obtain ⟨w₀, u, m₀, -, hi₀, -, he, -, hr₁, hr₂⟩ := ha.answered
  obtain ⟨-, v, hv, hrows⟩ := exec_listMedia he
  refine Discipline.keeps_pure fun u' n hu' _ item hitem => ?_
  obtain ⟨media, hmedia, rfl⟩ := List.mem_map.mp hitem
  obtain ⟨hget, howner⟩ := hrows media hmedia
  have hlives : LivesOn media w₀ := ⟨media, hget, Media.Becomes.refl media⟩
  refine ⟨media, rfl, cleared_of_owner ?_ hx (howner ▸ hv)⟩
  exact hlives.later ((hr₁.media.trans hr₂.media).trans hu'.media)

end Reads

/-! Every call -/

section Calls
variable {env : Env} {w : World} {g : ListWork} {m : Multiset Grant} {x : Call} {α : Type}

theorem Touches.issuesNoAcl {F : List Family} {y : Svc α} (h : Touches F y)
    (hF : ∀ f ∈ F, f.storesAcl = false) : y.Issues fun c => c.storesAcl = false :=
  h.issues.mono fun _ hc => storesAcl_of_family hF hc

/-- A delete drops entries and stores none. -/
theorem delete_issues (i r : String) : (delete i r).Issues fun c => c.storesAcl = false := by
  have hawait {c : Cmd} (hc : c.storesAcl = false) : (await c).Issues fun c => c.storesAcl = false :=
    ⟨hc, fun _ => trivial⟩
  have hrest (m : Media) : ProgE.Issues (fun c => c.storesAcl = false) (do
      await (.delMeta (metaKey i))
      recordDelete r (.int m.blobSize)) :=
    ProgE.Issues.bind (hawait rfl) fun _ => (recordDelete_touches r _).issuesNoAcl (by decide)
  refine ProgE.Issues.bind ((findActive_touches i r).issuesNoAcl (by decide)) fun media => ?_
  refine ProgE.Issues.bind trivial fun _ => ProgE.Issues.bind (hawait rfl) fun _ => ?_
  refine ProgE.Issues.bind (hawait rfl) fun _ => ?_
  split
  · exact ProgE.Issues.bind (hawait rfl) fun _ => hrest media
  · exact hrest media

/-- A call whose reply is about no media. -/
theorem silent_conf {y : Svc α} {f : α → Reply} (hy : y.Issues fun c => c.storesAcl = false)
    (hreads : g.call.listed = []) (hf : ∀ a row, ¬ (f a).Discloses row) :
    (confDiscipline env).Keeps (f <$> y) g w m
      (fun rep g' w' m' => ClearedReply env x (.ok rep) g' w' m') Anything := by
  refine Discipline.Keeps.map (Q := Anything) (Discipline.keeps_neutral hy
    (fun c hc => conf_neutral hc fun _ => hreads) (fun _ _ _ _ _ => trivial)
    fun _ _ _ _ _ => trivial) fun a g' w' m' _ _ => ?_
  intro rep hrep row hd
  obtain rfl := Except.ok.inj hrep
  exact absurd hd (hf a row)

/-- A call whose reply is about a media that its caller is cleared for. -/
theorem about_conf {y : Svc α} {f : α → Reply} (hy : (confDiscipline env).Keeps y g w m
      (fun a _ w' m' => ∃ media, (f a).About media ∧ Cleared env x media w' m') Anything) :
    (confDiscipline env).Keeps (f <$> y) g w m
      (fun rep g' w' m' => ClearedReply env x (.ok rep) g' w' m') Anything := by
  refine Discipline.Keeps.map hy fun a g' w' m' _ ⟨media, habout, hcleared⟩ => ?_
  intro rep hrep row hd
  obtain rfl := Except.ok.inj hrep
  exact ⟨media, hd.same habout, hcleared⟩

theorem handle_conf (x : Call) :
    (confDiscipline env).Keeps (handle env x) ((listWork env).start x) w m
      (fun rep g' w' m' => ClearedReply env x (.ok rep) g' w' m') Anything := by
  cases x with
  | upload ownerId file context thumbnailFile sharedWith =>
    refine about_conf (upload_of_held (E := fun _ _ _ => True) (fun g c hc => ?_)
      (fun _ _ _ _ => trivial) (fun _ _ _ _ _ => trivial)
      fun w' m' _ _ => uploadHeld_conf rfl rfl rfl)
    exact conf_neutrals (F := [.semaphore]) (by decide) (by simp) c (by simp [hc])
  | share i r uids =>
    refine Discipline.Keeps.map (share_conf rfl) fun _ _ _ _ _ _ => ?_
    intro rep hrep row hd
    obtain rfl := Except.ok.inj hrep
    exact hd.elim
  | delete i r => exact silent_conf (delete_issues i r) rfl fun _ _ h => h
  | getMetadata i r => exact about_conf (getMetadata_conf rfl rfl)
  | getBlob i r => exact about_conf (getBlob_conf rfl rfl)
  | getThumbnail i r => exact about_conf (getThumbnail_conf rfl rfl)
  | streamBlob i r => exact about_conf (streamBlob_conf rfl rfl)
  | streamThumbnail i r => exact about_conf (streamThumbnail_conf rfl rfl)
  | getUserQuota u =>
    exact silent_conf ((getUserQuota_touches u).issuesNoAcl (by decide)) rfl fun _ _ h => h
  | getUserMedia u page limit =>
    have hpage := @getUserMedia_conf env w ((listWork env).start (.getUserMedia u page limit)) m
      (.getUserMedia u page limit) u page limit rfl rfl
    refine Discipline.Keeps.map hpage fun dto _ _ _ _ h => ?_
    intro rep hrep row hd
    obtain rfl := Except.ok.inj hrep
    obtain ⟨item, hitem, hid⟩ := hd
    obtain ⟨media, hmedia, hcleared⟩ := h item hitem
    exact ⟨media, Or.inl (hid.symm.trans hmedia.symm), hcleared⟩
  | checkQuota u k =>
    exact silent_conf ((checkQuota_touches u k).issuesNoAcl (by decide)) rfl fun _ _ h => h
  | recordUpload u k =>
    exact silent_conf ((recordUpload_touches u k).issuesNoAcl (by decide)) rfl fun _ _ h => h
  | recordDelete u k =>
    exact silent_conf ((recordDelete_touches u k).issuesNoAcl (by decide)) rfl fun _ _ h => h
  | resetDailyUploads =>
    exact silent_conf (resetDailyUploads_touches.issuesNoAcl (by decide)) rfl fun _ _ h => h
  | checkAndPublishQuotaAlert u =>
    exact silent_conf ((checkAndPublishQuotaAlert_touches u).issuesNoAcl (by decide)) rfl fun _ _ h => h

end Calls

/-! Runs -/

section Runs
variable {env : Env}

theorem confInv_act (a : Act) {w : World} {m : Multiset Grant} (hi : ConfInv env w m) :
    ConfInv env (a.apply w) m := by
  have hmedia := act_media a w
  have hl : ConfLater w m (a.apply w) m := ConfLater.of_media (MediaLater.of_eq hmedia)
  refine ⟨mediaStores_act a hi.stores, fun k r hr => ?_, fun k r hr => ?_,
    hi.entries_later hl fun key e he => act_metaCache he⟩
  · exact hi.granted k r (hmedia ▸ hr)
  · exact hi.paths k r (hmedia ▸ hr)

theorem conf_callable (x : Call) : (confDiscipline env).Callable (ClearedReply env) x := by
  refine ⟨rfl, fun w m _ => (handle_conf x).upholds.mono fun r g w' m' _ h => ?_⟩
  cases r with
  | ok rep => exact h
  | error e => exact fun rep hrep => absurd hrep (by simp)

theorem conf_sound : (confDiscipline env).Sound (ClearedReply env) fun _ _ => True where
  call _ x _ := conf_callable x
  fork _ x _ := conf_callable x
  act p a _ _ hi := ⟨confInv_act a hi, ConfLater.of_media (MediaLater.of_eq (act_media a p.world))⟩
  step _ _ _ _ _ _ _ _ := trivial

theorem confInv_empty : ConfInv env World.empty 0 :=
  ⟨mediaStores_empty env, fun _ _ h => absurd h (by simp [World.empty]),
    fun _ _ h => absurd h (by simp [World.empty]), fun _ _ h => absurd h (by simp [World.empty])⟩

/-- The account of a thread keeps its call, and ids that its log has addressed. -/
theorem listWork_of (t : ServiceThread) : ((listWork env).of t).call = t.call ∧
    ∀ id ∈ ((listWork env).of t).ids, id ∈ addressed env t := by
  suffices h : ∀ (log : ServiceLog) (g : ListWork),
      (log.foldl (fun g e => g.next env e.1 e.2) g).call = g.call ∧
        ∀ id ∈ (log.foldl (fun g e => g.next env e.1 e.2) g).ids,
          id ∈ g.ids ∨ id ∈ log.filterMap (addressedBy env) by
    obtain ⟨hcall, hids⟩ := h t.log ⟨t.call, []⟩
    refine ⟨hcall, fun id hid => ?_⟩
    exact (hids id hid).resolve_left List.not_mem_nil
  intro log
  induction log with
  | nil => exact fun g => ⟨rfl, fun id hid => Or.inl hid⟩
  | cons e log ih =>
    intro g
    obtain ⟨hcall, hids⟩ := ih (g.next env e.1 e.2)
    refine ⟨hcall.trans ListWork.next_call, fun id hid => ?_⟩
    rcases hids id hid with hg | hlog
    · -- an id that this event has added, or an older one
      unfold ListWork.next at hg
      split at hg
      · exact Or.inl hg
      · rcases List.mem_append.mp hg with hg | hadded
        · exact Or.inl hg
        · right
          rw [List.filterMap_cons]
          cases ha : addressedBy env e with
          | none =>
            rw [show addressedBy env ⟨e.1, e.2⟩ = none from ha] at hadded
            exact absurd hadded (by simp)
          | some a =>
            rw [show addressedBy env ⟨e.1, e.2⟩ = some a from ha] at hadded
            exact List.mem_cons.mpr (Or.inl (by simpa using hadded))
    · right
      rw [List.filterMap_cons]
      split
      · exact hlog
      · exact List.mem_cons_of_mem _ hlog

/-- A grant in the total is the doing of one of the requests. -/
theorem ownerListed_of_total {p : ServicePool} {m : Media} {u : String}
    (h : (some m.ownerId, m.id, u) ∈ (listWork env).total p) :
    ∃ t ∈ p.threads, OwnerListed env m u t := by
  rw [Account.total, ← Multiset.sum_coe] at h
  obtain ⟨s, hs, hmem⟩ := Multiset.mem_join.mp h
  obtain ⟨t, ht, rfl⟩ := List.mem_map.mp (Multiset.mem_coe.mp hs)
  obtain ⟨hcall, hids⟩ := @listWork_of env t
  obtain ⟨howner, hid, hu⟩ := ListWork.mem_grants.mp (Multiset.mem_coe.mp hmem)
  obtain ⟨uid, huid, huv⟩ := List.mem_filterMap.mp hu
  rw [hcall] at howner huid
  exact ⟨t, ht, howner.symm, hids _ hid, uid, huid, huv⟩

/-- A key names one row. -/
theorem ConfInv.id_eq {w : World} {n : Multiset Grant} (h : ConfInv env w n) {m row : Media}
    {k : String} (hm : w.media.get m.id = some m) (hrow : w.media.get k = some row) {key : String}
    (h₁ : m.RefersTo key) (h₂ : row.RefersTo key) : m.id = k :=
  (h.paths _ m hm key h₁).id_eq (h.paths k row hrow key h₂)

/-- What was handed out is public, the owner's, or granted by the owner. -/
theorem disclosed_to {p : ServicePool}
    (hp : (service env).Runs (fun _ _ => True) ⟨World.empty, []⟩ p) {t : ServiceThread}
    (ht : t ∈ p.threads) {rep : Reply} (hrep : t.outcome = some (.ok rep)) {m : Media}
    (hm : p.world.media.get m.id = some m) (hprivate : m.context ∉ PUBLIC_READABLE_CONTEXTS)
    (hd : rep.Discloses m) : ∃ u, t.call.requester?.bind env.uuidIn = some u ∧
      (u = m.ownerId ∨ (some m.ownerId, m.id, u) ∈ (listWork env).total p) := by
  have hholds := ((Discipline.holds_of_empty confInv_empty).runs conf_sound hp).1
  obtain ⟨media, hsame, ⟨row, hrow, hb⟩, hcleared⟩ := hholds.outcome ht hrep rep rfl m hd
  -- the media that was handed out is this one
  have hid : m.id = media.id := by
    rcases hsame with hid | ⟨key, hkey, hkey'⟩
    · exact hid
    · refine hholds.inv.id_eq hm hrow hkey (hkey'.imp (fun h => ?_) fun h => ?_)
      · exact hb.storagePath_eq.trans h
      · exact hb.thumbnailPath_eq.trans h
  rw [← hid] at hrow
  obtain rfl : m = row := Option.some.inj (hm.symm.trans hrow)
  rw [← hb.context_eq, ← hb.ownerId_eq, ← hid] at hcleared
  exact hcleared.resolve_left hprivate

end Runs

/-- Whoever is handed a private media is its owner, or the owner has listed him for it. -/
theorem private_media_confined (env : Env) (p : ServicePool)
    (hp : (service env).Runs (fun _ _ => True) ⟨World.empty, []⟩ p) (t : ServiceThread)
    (ht : t ∈ p.threads) (rep : Reply) (hrep : t.outcome = some (.ok rep)) (m : Media)
    (hm : p.world.media.get m.id = some m) (hprivate : m.context = MediaContext.MESSAGE.value)
    (hd : rep.Discloses m) :
    ∃ u, t.call.requester?.bind env.uuidIn = some u ∧
      (u = m.ownerId ∨ ∃ t' ∈ p.threads, OwnerListed env m u t') := by
  have hpublic : m.context ∉ PUBLIC_READABLE_CONTEXTS := by
    rw [hprivate]
    decide
  obtain ⟨u, hu, hcleared⟩ := disclosed_to hp ht hrep hm hpublic hd
  exact ⟨u, hu, hcleared.imp_right ownerListed_of_total⟩

/-- An upload that lists a user, and that user's read of its metadata. -/
def listedRead : List (Label Call Act) :=
  .call sharedUpload :: List.replicate 20 (.step 0) ++
    .call (.getMetadata (exampleId 1) (exampleId 6)) :: List.replicate 3 (.step 2)

theorem private_media_confined_to_listed : ∃ p, (service exampleEnv).play (fun _ _ => True)
    ⟨World.empty, []⟩ listedRead = some p ∧ ∃ t ∈ p.threads, ∃ m : Media,
    (m.id = exampleId 1 ∧ t.call = .getMetadata (exampleId 1) (exampleId 6) ∧
      t.outcome.isSome = true) ∧
    ∃ u, t.call.requester?.bind exampleEnv.uuidIn = some u ∧
      (u = m.ownerId ∨ ∃ t' ∈ p.threads, OwnerListed exampleEnv m u t') := by
  have hplay : (((service exampleEnv).play (fun _ _ => True) ⟨World.empty, []⟩ listedRead).filter
      fun p => ∃ t ∈ p.threads, t.call = .getMetadata (exampleId 1) (exampleId 6) ∧
        ∃ m ∈ p.world.media.get (exampleId 1), m.context = MediaContext.MESSAGE.value ∧
          t.outcome = some (.ok (.metadata (toMetadataDto m)))).isSome = true := by
    decide +kernel
  obtain ⟨p, hp⟩ := Option.isSome_iff_exists.mp hplay
  simp only [Option.filter_eq_some_iff, decide_eq_true_eq] at hp
  obtain ⟨hp, t, ht, hcall, m, hm, hprivate, hout⟩ := hp
  have hid : m.id = exampleId 1 := media_id hm
  refine ⟨p, hp, t, ht, m, ⟨hid, hcall, by rw [hout]; rfl⟩, ?_⟩
  exact private_media_confined exampleEnv p (System.runs_of_play hp) t ht _ hout m (hid ▸ hm)
    hprivate rfl

end WhisprMedia
