import WhisprMedia.SerialDeletes

/-! Cached quotas in serial runs: they come from rows, and no row goes. -/
namespace WhisprMedia
open Awaiting Keyed MediaService QuotaService StorageService

/-- A user with a cached quota has a row. -/
def EntryRows (env : Env) (w : World) : Prop :=
  ∀ s u, env.uuidIn s = some u → (w.quotaCache (cacheKey s)).isSome = true →
    (w.quotas.get u).isSome = true

def EntriesKept (env : Env) (w w' : World) : Prop := EntryRows env w → EntryRows env w'

section Entries
variable {env : Env} {w : World} {α β : Type}

theorem EntriesKept.trans {w' w'' : World} (h : EntriesKept env w w')
    (h' : EntriesKept env w' w'') : EntriesKept env w w'' := fun hw => h' (h hw)

/-- Only a SET of the cached quota adds an entry, and no command removes a row. -/
theorem entriesKept_exec {c : Cmd} (hfill : c.family ≠ .quotaFill) :
    EntriesKept env w (env.exec c w).2 := by
  intro h s u hu hs
  obtain ⟨e, he⟩ := Option.isSome_iff_exists.mp hs
  have hold := quotaCache_before_exec hfill he
  exact quota_isSome_exec (h s u hu (Option.isSome_iff_exists.mpr ⟨e, hold⟩))

theorem ends_entries {F : List Family} {x : Svc α} (hx : Touches F x)
    (hF : ∀ f ∈ F, f ≠ .quotaFill) :
    ProgE.Ends env.exec x w (fun _ => EntriesKept env w) (fun _ => EntriesKept env w) :=
  ends_of_touches hx (fun _ h => h) (fun _ _ _ => EntriesKept.trans) fun _ _ hc =>
    entriesKept_exec (hF _ hc)

theorem ends_entries_bind {x : Svc α} {f : α → Svc β}
    (hx : ProgE.Ends env.exec x w (fun _ => EntriesKept env w) (fun _ => EntriesKept env w))
    (hf : ∀ a u, ProgE.Ends env.exec (f a) u (fun _ => EntriesKept env u)
      (fun _ => EntriesKept env u)) :
    ProgE.Ends env.exec (x >>= f) w (fun _ => EntriesKept env w) (fun _ => EntriesKept env w) :=
  ProgE.Ends.bind_trans (S := EntriesKept env) (fun _ _ _ => EntriesKept.trans) hx hf

theorem quotaReadRel_entries {userId : String} : QuotaReadRel env userId (EntriesKept env) where
  refl _ h := h
  trans _ _ _ := EntriesKept.trans
  lookup _ := ends_entries (findOrInsertRow_touches userId) (by decide)
  fill {w u q} hu hq hw s v hv hs := by
    by_cases hk : cacheKey s = cacheKey userId
    · -- the entry that was filled is of the row that was read
      obtain rfl := cacheKey_injective hk
      obtain rfl := Option.some.inj (hu.symm.trans hv)
      exact Option.isSome_iff_exists.mpr ⟨q, hq⟩
    · replace hs : (Function.update w.quotaCache (cacheKey userId) (some (toCached q))
        (cacheKey s)).isSome = true := hs
      rw [Function.update_of_ne hk] at hs
      exact hw s v hv hs

variable {ownerId : String} {file : File} {context : MediaContext} {thumbnailFile : Option File}
  {sharedWith : Option (List String)}

theorem uploadHeld_entries :
    ProgE.Ends env.exec (uploadHeld env ownerId file context thumbnailFile sharedWith) w
      (fun _ => EntriesKept env w) (fun _ => EntriesKept env w) := by
  refine ends_entries_bind (ends_entries (authorizeGroupIconUpload_touches env context ownerId)
    (by decide)) fun _ _ => ends_entries_bind (enforceQuota_rel quotaReadRel_entries _) fun _ _ => ?_
  refine ends_entries_bind (ends_entries (validateFile_touches env file context) (by decide))
    fun _ _ => ends_entries_bind (ends_entries (findDuplicate_touches ownerId _) (by decide))
      fun existing u => ?_
  cases existing with
  | some existing =>
    exact ends_entries_bind (ends_entries (mergeSharedWith_touches ownerId existing sharedWith)
      (by decide)) fun _ _ => ends_entries (buildUploadResponse_touches env existing) (by decide)
  | none =>
    exact ends_entries_bind (ends_entries (storeNew_touches env ownerId file context thumbnailFile
      sharedWith) (by decide)) fun media _ =>
        ends_entries (afterStore_touches env ownerId file _ media) (by decide)

theorem upload_entries :
    ProgE.Ends env.exec (upload env ownerId file context thumbnailFile sharedWith) w
      (fun _ => EntriesKept env w) (fun _ => EntriesKept env w) := by
  refine ends_entries_bind (ends_entries (acquireSemaphore_touches ownerId) (by decide))
    fun _ u => ?_
  have hrelease (v : World) (h : EntriesKept env u v) : ProgE.Ends env.exec
      (releaseSemaphore ownerId) v (fun _ => EntriesKept env u) (fun _ => EntriesKept env u) :=
    (ends_entries (releaseSemaphore_touches ownerId) (by decide)).mono (fun _ _ h' => h.trans h')
      fun _ _ h' => h.trans h'
  exact ProgE.Ends.ensuring uploadHeld_entries (fun _ v h => hrelease v h) fun _ v h => hrelease v h

/-! Serial steps -/

theorem entryRows_upload (h : EntryRows env w) : EntryRows env
    ((service env).serve (.upload ownerId file context thumbnailFile sharedWith) w).world := by
  have hends : ProgE.Ends env.exec
      (handle env (.upload ownerId file context thumbnailFile sharedWith)) w
      (fun _ => EntriesKept env w) (fun _ => EntriesKept env w) := upload_entries.map fun _ _ h => h
  cases hr : ((service env).serve (.upload ownerId file context thumbnailFile sharedWith) w).result with
  | ok rep => exact hends.of_ok hr h
  | error e => exact hends.of_error hr h

theorem entryRows_delete (id requesterId : String) (h : EntryRows env w) :
    EntryRows env ((service env).serve (.delete id requesterId) w).world := by
  have hends : ProgE.Ends env.exec (handle env (.delete id requesterId)) w
      (fun _ => EntriesKept env w) (fun _ => EntriesKept env w) :=
    (ends_entries (delete_touches id requesterId) (by decide)).map fun _ _ h => h
  cases hr : ((service env).serve (.delete id requesterId) w).result with
  | ok rep => exact hends.of_ok hr h
  | error e => exact hends.of_error hr h

theorem entryRows_act (a : Act) (h : EntryRows env w) : EntryRows env (a.apply w) := by
  intro s u hu hs
  rw [act_quotas]
  obtain ⟨e, he⟩ := Option.isSome_iff_exists.mp hs
  exact h s u hu (Option.isSome_iff_exists.mpr ⟨e, act_quotaCache he⟩)

/-- An upload that has inserted a row charges its owner: a cached quota comes from a row. -/
theorem EntryRows.charged (h : EntryRows env w) {w' : World} {m : Media}
    (hs : Stored env ownerId file context thumbnailFile w w' m)
    (cached : (w.quotaCache (cacheKey ownerId)).isSome) : w.quotas.get m.ownerId ≠ none := by
  have hrow := h ownerId m.ownerId hs.row.owner cached
  exact Option.isSome_iff_ne_none.mp hrow

end Entries

end WhisprMedia
