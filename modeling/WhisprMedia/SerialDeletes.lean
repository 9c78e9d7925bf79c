import WhisprMedia.SerialUploads

/-! What a delete has done when it has run alone, and what every other call has done. -/
namespace WhisprMedia
open Awaiting Keyed MediaService QuotaService StorageService

/-- The bucket after the deletes of a media's objects. -/
def removeAll (bucket : String → Option StoredObject) (m : Media) : String → Option StoredObject :=
  match truthy m.thumbnailPath with
  | some path => Function.update (Function.update bucket m.storagePath none) path none
  | none => Function.update bucket m.storagePath none

/-- The deletes of a media's objects leave the objects of other rows. -/
theorem removeAll_other {bucket : String → Option StoredObject} {m : Media} {key : String}
    (h : ∀ path, m.RefersTo path → key ≠ path) : removeAll bucket m key = bucket key := by
  have hmain : Function.update bucket m.storagePath none key = bucket key :=
    Function.update_of_ne (h _ (Or.inl rfl)) _ _
  unfold removeAll
  cases hp : truthy m.thumbnailPath with
  | some path =>
    have hne := h path (Or.inr (Option.filter_eq_some_iff.mp hp).1)
    exact (Function.update_of_ne hne _ _).trans hmain
  | none => exact hmain

theorem update_none_or {α β : Type} [DecidableEq α] (f : α → Option β) (a b : α) :
    Function.update f a none b = f b ∨ Function.update f a none b = none := by
  by_cases hb : b = a
  · exact Or.inr (hb ▸ Function.update_self _ _ _)
  · exact Or.inl (Function.update_of_ne hb _ _)

/-- A delete stores no object. -/
theorem removeAll_or {bucket : String → Option StoredObject} {m : Media} (key : String) :
    removeAll bucket m key = bucket key ∨ removeAll bucket m key = none := by
  have hmain := update_none_or bucket m.storagePath key
  unfold removeAll
  cases truthy m.thumbnailPath with
  | some path =>
    rcases update_none_or (Function.update bucket m.storagePath none) path key with h | h
    · exact hmain.imp h.trans h.trans
    · exact Or.inr h
  | none => exact hmain

theorem removeAll_thumbnail {bucket : String → Option StoredObject} {m : Media} {path : String}
    (h : truthy m.thumbnailPath = some path) : removeAll bucket m path = none := by
  unfold removeAll
  rw [h]
  exact Function.update_self _ _ _

theorem removeAll_storagePath {bucket : String → Option StoredObject} {m : Media} :
    removeAll bucket m m.storagePath = none := by
  have hmain : Function.update bucket m.storagePath none m.storagePath = none :=
    Function.update_self _ _ _
  cases hp : truthy m.thumbnailPath with
  | none =>
    unfold removeAll
    rw [hp]
    exact hmain
  | some path =>
    by_cases hsame : m.storagePath = path
    · exact hsame ▸ removeAll_thumbnail (hsame ▸ hp)
    · unfold removeAll
      rw [hp]
      exact (Function.update_of_ne hsame _ _).trans hmain

/-- A quota row after the release for a file. -/
def UserQuota.release (q : UserQuota) (size : Int) : UserQuota := { q with
  storageUsed := max 0 (q.storageUsed - size)
  filesCount := max 0 (q.filesCount - 1) }

/-- The row is inactive, its objects are gone, and nothing else but quotas has changed. -/
structure Removed (w w' : World) (m : Media) : Prop where
  media : ∀ k, w'.media.get k = if k = m.id then some { m with isActive := false }
    else w.media.get k
  bucket : w'.bucket = removeAll w.bucket m
  dedup : w'.dedupCache = w.dedupCache
  drawn : w'.drawn = w.drawn
  now : w'.now = w.now

/-- The user's quota is released, or it was not there. -/
structure Released (userId : String) (size : ℕ) (w : World) (r : Except Err Unit) (w' : World) :
    Prop where
  row : ∀ k, w'.quotas.get k = if k = userId ∧ r = .ok () then
    (w.quotas.get k).map (·.release size) else w.quotas.get k
  cache : w'.quotaCache = if r = .ok () then
    Function.update w.quotaCache (cacheKey userId) none else w.quotaCache
  missing : r ≠ .ok () → w.quotas.get userId = none ∨ validateBlobSize (.int size) ≠ .ok ()

/-- The ways in which a delete can end. -/
inductive DeleteDone (env : Env) (id requesterId : String) (w : World) :
    Except Err Unit → World → Prop
  | refused {e}
      (unowned : ∀ m, env.uuidIn id = some m.id → w.media.get m.id = some m →
        m.isActive = true → m.ownerId ≠ requesterId) : DeleteDone env id requesterId w (.error e) w
  | deleted {r w'} (m : Media) (named : env.uuidIn id = some m.id)
      (row : w.media.get m.id = some m) (active : m.isActive = true)
      (owner : m.ownerId = requesterId) (removed : Removed w w' m)
      (released : Released requesterId m.blobSize w r w') : DeleteDone env id requesterId w r w'

section Deletes
variable {env : Env} {id requesterId : String} {w : World}

/-- A lookup finds an active row, or the user owns no such row. -/
theorem findActive_ends (hcanon : RowsCanonical env w) :
    ProgE.Ends env.exec (findActive id requesterId) w
      (fun m w' => w' = w ∧ env.uuidIn id = some m.id ∧ w.media.get m.id = some m ∧
        m.isActive = true)
      (fun _ w' => w' = w ∧ ∀ m, env.uuidIn id = some m.id → w.media.get m.id = some m →
        m.isActive = true → m.ownerId ≠ requesterId) := by
  -- the owner sees his active rows
  have hsees {u : String} {m : Media} (hu : env.uuidIn requesterId = some u)
      (hm : w.media.get m.id = some m) (hact : m.isActive = true) (ho : m.ownerId = requesterId) :
      ((w.media.get m.id).filter fun m => m.isActive && rlsSelect u m) = some m := by
    have hself := (hcanon _ _ hm).ownerId
    obtain rfl := Option.some.inj ((ho ▸ hself).symm.trans hu)
    rw [hm, Option.filter_some, if_pos (by simp [hact, rlsSelect, ho])]
  cases hu : env.uuidIn requesterId with
  | none =>
    refine ProgE.Ends.bind (Q := fun _ _ => False) (ends_await fun r u he => ?_) fun _ _ h => h.elim
    simp only [Env.exec, hu] at he
    obtain ⟨rfl, rfl⟩ := Prod.mk.inj he
    refine ⟨rfl, fun m _ hm _ ho => ?_⟩
    have hself := (hcanon _ _ hm).ownerId
    rw [ho, hu] at hself
    exact absurd hself (by simp)
  | some u =>
    cases hi : env.uuidIn id with
    | none =>
      refine ProgE.Ends.bind (Q := fun _ _ => False) (ends_await fun r u he => ?_)
        fun _ _ h => h.elim
      simp only [Env.exec, hu, hi] at he
      obtain ⟨rfl, rfl⟩ := Prod.mk.inj he
      exact ⟨rfl, fun m h => absurd h (by simp)⟩
    | some i =>
      have hfind : env.exec (.findMedia requesterId id) w =
          (.ok ((w.media.get i).filter fun m => m.isActive && rlsSelect u m), w) := by
        simp only [Env.exec, hu, hi]
      refine ends_await_bind hfind ?_
      cases hr : (w.media.get i).filter fun m => m.isActive && rlsSelect u m with
      | some m =>
        obtain ⟨hget, hp⟩ := Option.filter_eq_some_iff.mp hr
        obtain rfl := media_id hget
        exact ProgE.ends_pure ⟨rfl, rfl, hget, (Bool.and_eq_true_iff.mp hp).1⟩
      | none =>
        refine ProgE.ends_throw ⟨rfl, fun m hid hm hact ho => ?_⟩
        obtain rfl := Option.some.inj hid
        -- so a row that is not found is not his
        exact absurd ((hsees hu hm hact ho).symm.trans hr) (by simp)

theorem exec_releaseQuota {userId u : String} (hu : env.uuidIn userId = some u) (n : Int) :
    env.exec (.releaseQuota userId n) w = (.ok (if (w.quotas.get u).isSome then 1 else 0),
      w.updateQuota u (·.release n) fun _ => rfl) := by
  simp only [Env.exec, hu]
  rfl

/-- The release of a delete; it fails if there is no row. -/
theorem recordDelete_ends (size : ℕ) (hu : env.uuidIn requesterId = some requesterId) :
    ProgE.Ends env.exec (recordDelete requesterId (.int size)) w
      (fun r w' => Released requesterId size w (.ok r) w' ∧
        w' = { w with quotas := w'.quotas, quotaCache := w'.quotaCache })
      (fun e w' => Released requesterId size w (.error e) w' ∧
        w' = { w with quotas := w'.quotas, quotaCache := w'.quotaCache }) := by
  have hget (k : String) : (w.updateQuota requesterId (·.release size) fun _ => rfl).quotas.get k =
      if k = requesterId then (w.quotas.get requesterId).map (·.release size)
      else w.quotas.get k := get_updateQuota
  refine ends_sync_bind (fun e he => ⟨⟨fun k => (if_neg (by simp)).symm, (if_neg (by simp)).symm,
    fun _ => Or.inr (by rw [he]; simp)⟩, rfl⟩) fun _ _ => ?_
  refine ends_await_bind (exec_releaseQuota hu size) (ends_sync_bind (fun e he => ?_) fun _ _ => ?_)
  · have hnone : w.quotas.get requesterId = none := by
      have h := enforceAffected_error he
      split at h
      · exact absurd h (by simp)
      · next hs => simpa using hs
    refine ⟨⟨fun k => ?_, (if_neg (by simp)).symm, fun _ => Or.inl hnone⟩, rfl⟩
    rw [if_neg (by simp), hget]
    split
    · next hk => rw [hk, hnone]; rfl
    · rfl
  · refine ProgE.Ends.tryCatch (E := fun _ _ => False) (ends_await_ok (v := ()) rfl ?_)
      fun _ _ h => h.elim
    refine ⟨⟨fun k => (hget k).trans ?_, (if_pos rfl).symm, fun h => absurd rfl h⟩, rfl⟩
    by_cases hk : k = requesterId
    · rw [if_pos hk, if_pos ⟨hk, rfl⟩, hk]
    · rw [if_neg hk, if_neg fun h => hk h.1]

/-- What the commands have done that follow the soft delete. -/
structure RemovalDone (requesterId : String) (m : Media) (w : World) (out : Except Err Unit)
    (w' : World) : Prop where
  bucket : w'.bucket = removeAll w.bucket m
  others : w' = { w with
    bucket := w'.bucket, metaCache := w'.metaCache, quotas := w'.quotas
    quotaCache := w'.quotaCache }
  released : Released requesterId m.blobSize w out w'

/-- The commands after the row has become inactive. -/
theorem removeDeleted_ends {m : Media} (hu : env.uuidIn requesterId = some requesterId) :
    ProgE.Ends env.exec (removeDeleted id requesterId m) w
      (fun r => RemovalDone requesterId m w (.ok r))
      (fun e => RemovalDone requesterId m w (.error e)) := by
  have hrest {b : String → Option StoredObject} (hb : b = removeAll w.bucket m) :
      ProgE.Ends env.exec
        (do await (.delMeta (metaKey id)); recordDelete requesterId (.int m.blobSize))
        { w with bucket := b } (fun r => RemovalDone requesterId m w (.ok r))
        (fun e => RemovalDone requesterId m w (.error e)) := by
    refine ends_await_bind (v := ()) rfl ((recordDelete_ends m.blobSize hu).mono ?_ ?_)
    all_goals
      rintro r w' ⟨hr, he⟩
      refine ⟨by rw [he]; exact hb, by rw [he], ⟨hr.row, hr.cache, hr.missing⟩⟩
  refine ends_await_bind (v := ()) rfl ?_
  unfold removeAll at hrest
  cases hp : truthy m.thumbnailPath with
  | some path =>
    rw [hp] at hrest
    exact ends_await_bind (v := ()) rfl (hrest rfl)
  | none =>
    rw [hp] at hrest
    exact hrest rfl

/-- What a delete has done when it has run alone. -/
theorem delete_ends (hcanon : RowsCanonical env w) :
    ProgE.Ends env.exec (delete id requesterId) w
      (fun r => DeleteDone env id requesterId w (.ok r))
      (fun e => DeleteDone env id requesterId w (.error e)) := by
  refine ProgE.Ends.bind ((findActive_ends hcanon).mono (fun _ _ h => h) fun _ _ h => ?_)
    fun m w h => ?_
  · obtain ⟨rfl, hun⟩ := h
    exact .refused hun
  obtain ⟨rfl, hid, hget, hact⟩ := h
  refine ends_sync_bind (fun e he => .refused fun m' hid' hm' _ ho => ?_) fun _ howner => ?_
  · -- the row that the id names is not the requester's
    rw [← Option.some.inj (hid.symm.trans hid'), hget] at hm'
    obtain rfl := Option.some.inj hm'
    exact absurd (he.symm.trans (enforceOwner_eq_ok.mpr ho)) (by simp)
  have ho := enforceOwner_eq_ok.mp howner
  have hself : env.uuidIn requesterId = some requesterId := ho ▸ (hcanon _ _ hget).ownerId
  have hsoft : env.exec (.softDelete requesterId id) w = (.ok (),
      w.updateOwned requesterId m.id ({ · with isActive := false }) fun _ => rfl) := by
    simp only [Env.exec, hself, hid]
  have hmedia (k : String) : (w.updateOwned requesterId m.id ({ · with isActive := false })
      fun _ => rfl).media.get k = if k = m.id then some { m with isActive := false }
        else w.media.get k := by
    rw [get_updateOwned, hget, Option.map_some, if_pos ho]
  refine ends_await_bind hsoft ((removeDeleted_ends hself).mono ?_ ?_)
  all_goals
    rintro r w' ⟨hb, he, hr⟩
    refine .deleted m hid hget hact ho ⟨fun k => ?_, hb, ?_, ?_, ?_⟩ ⟨hr.row, hr.cache, hr.missing⟩
    · rw [he]
      exact hmedia k
    all_goals rw [he]; rfl

end Deletes

/-! Whole calls -/

section Calls
variable {env : Env} {w : World}

theorem serve_upload (ownerId : String) (file : File) (context : MediaContext)
    (thumbnailFile : Option File) (sharedWith : Option (List String)) (w : World) :
    ∃ r, UploadDone env ownerId file context thumbnailFile w r
        ((service env).serve (.upload ownerId file context thumbnailFile sharedWith) w).world ∧
      ((service env).serve (.upload ownerId file context thumbnailFile sharedWith) w).result =
        r.map Reply.uploaded := by
  have h : ProgE.Ends env.exec
      (handle env (.upload ownerId file context thumbnailFile sharedWith)) w
      (fun rep w' => ∃ dto, rep = Reply.uploaded dto ∧
        UploadDone env ownerId file context thumbnailFile w (.ok dto) w')
      (fun e => UploadDone env ownerId file context thumbnailFile w (.error e)) :=
    upload_ends.map fun dto w' h => ⟨dto, rfl, h⟩
  cases hr : ((service env).serve (.upload ownerId file context thumbnailFile sharedWith) w).result with
  | ok rep =>
    obtain ⟨dto, rfl, hd⟩ := h.of_ok hr
    exact ⟨.ok dto, hd, rfl⟩
  | error e => exact ⟨.error e, h.of_error hr, rfl⟩

theorem serve_delete (id requesterId : String) (hcanon : RowsCanonical env w) :
    ∃ r, DeleteDone env id requesterId w r ((service env).serve (.delete id requesterId) w).world ∧
      ((service env).serve (.delete id requesterId) w).result = r.map fun _ => Reply.done := by
  have h : ProgE.Ends env.exec (handle env (.delete id requesterId)) w
      (fun rep w' => rep = Reply.done ∧ DeleteDone env id requesterId w (.ok ()) w')
      (fun e => DeleteDone env id requesterId w (.error e)) :=
    (delete_ends hcanon).map fun _ w' h => ⟨rfl, h⟩
  cases hr : ((service env).serve (.delete id requesterId) w).result with
  | ok rep =>
    obtain ⟨rfl, hd⟩ := h.of_ok hr
    exact ⟨.ok (), hd, rfl⟩
  | error e => exact ⟨.error e, h.of_error hr, rfl⟩

theorem serve_quiet {x : Call} (hx : x.quiet = true) :
    Quiet w ((service env).serve x w).world := by
  have h := ends_of_quiet (h := env.exec) (w := w) (faithful_exec env) (handle_quiet env hx)
  cases hr : ((service env).serve x w).result with
  | ok rep => exact h.of_ok hr
  | error e => exact h.of_error hr

end Calls

end WhisprMedia
