import WhisprMedia.RlsPolicies
import WhisprMedia.SerialService
import WhisprMedia.Slots

/-! Probing for private media. Row security answers a stranger as if the row were not there; the
metadata cache, which is read before any row, answers that access is denied. -/
namespace WhisprMedia
open Awaiting MediaService

/-- The requests of a user that name one media. -/
inductive Probes (id r : String) : Call → Prop
  | getMetadata : Probes id r (.getMetadata id r)
  | getBlob : Probes id r (.getBlob id r)
  | getThumbnail : Probes id r (.getThumbnail id r)
  | streamBlob : Probes id r (.streamBlob id r)
  | streamThumbnail : Probes id r (.streamThumbnail id r)
  | share (userIds : List String) : Probes id r (.share id r userIds)
  | delete : Probes id r (.delete id r)

/-- The user neither owns the media nor is in its ACL. -/
structure Stranger (env : Env) (m : Media) (r : String) : Prop where
  owner : r ≠ m.ownerId
  acl : r ∉ m.acl
  value : ∀ u, env.uuidIn r = some u → u ≠ m.ownerId ∧ u ∉ m.acl

/-- An entry of the metadata cache that says what the row says. -/
def CachedMeta.Describes (e : CachedMeta) (m : Media) : Prop :=
  e = ⟨toMetadataDto m, m.sharedWith⟩

/-- The key is a metadata key of the id, in some spelling. -/
def IsMetaKey (env : Env) (id key : String) : Prop :=
  ∃ s, env.uuidIn s = some id ∧ key = metaKey s

/-- Two worlds, with the media and without it. Apart from the row, they may differ in the cached
metadata of the media, its objects, the dedup entries that point to it, the quota of its owner,
and in how many uuids have been drawn and answers been given. -/
structure DifferOnlyIn (env : Env) (m : Media) (w w' : World) : Prop where
  row : w.media.get m.id = some m
  noRow : w'.media.get m.id = none
  media : ∀ id, id ≠ m.id → w.media.get id = w'.media.get id
  entry : ∀ key e, IsMetaKey env m.id key → w.metaCache key = some e → e.Describes m
  noEntry : ∀ key, IsMetaKey env m.id key → w'.metaCache key = none
  metaCache : ∀ key, ¬ IsMetaKey env m.id key → w.metaCache key = w'.metaCache key
  bucket : ∀ key, m.storagePath ≠ key → m.thumbnailPath ≠ some key → w.bucket key = w'.bucket key
  dedupCache : ∀ key, w.dedupCache key ≠ some m.id → w.dedupCache key = w'.dedupCache key
  quotas : ∀ u, u ≠ m.ownerId → w.quotas.get u = w'.quotas.get u
  quotaCache : ∀ u, env.uuidIn u ≠ some m.ownerId →
    w.quotaCache (QuotaService.cacheKey u) = w'.quotaCache (QuotaService.cacheKey u)
  semaphores : w.semaphores = w'.semaphores
  cooldowns : w.cooldowns = w'.cooldowns
  published : w.published = w'.published
  now : w.now = w'.now

/-! The database path -/

section Hidden
variable {env : Env} {w : World} {id r : String}

/-- The answer to a lookup of a row that is not there. -/
def hiddenReply (env : Env) (r id : String) : Except String (Option Media) :=
  match env.uuidIn r, env.uuidIn id with
  | some _, some _ => .ok none
  | _, _ => .error invalidUuid

/-- What a request throws after that answer. -/
def hiddenError (env : Env) (r id : String) : Err :=
  match env.uuidIn r, env.uuidIn id with
  | some _, some _ => notFound id
  | _, _ => .error invalidUuid

/-- The lookup tells the user nothing about a row. -/
def Hidden (env : Env) (r id : String) (w : World) : Prop :=
  env.exec (.findMedia r id) w = (hiddenReply env r id, w)

theorem hidden_of_none {k : String} (hid : env.uuidIn id = some k) (h : w.media.get k = none) :
    Hidden env r id w := by
  unfold Hidden hiddenReply
  simp only [Env.exec, hid]
  cases env.uuidIn r with
  | none => rfl
  | some u => simp [h]

/-- Row security hides a private row from strangers. -/
theorem hidden_of_stranger {m : Media} (hid : env.uuidIn id = some m.id)
    (hm : w.media.get m.id = some m) (hctx : m.context = MediaContext.MESSAGE.value)
    (hr : Stranger env m r) : Hidden env r id w := by
  unfold Hidden hiddenReply
  simp only [Env.exec, hid]
  cases hu : env.uuidIn r with
  | none => rfl
  | some u =>
    obtain ⟨ho, hacl⟩ := hr.value u hu
    have hsel : rlsSelect u m = false := by
      have hacl' : ¬ u ∈ m.sharedWith.getD [] := hacl
      simp [rlsSelect, hctx, MediaContext.value, Ne.symm ho, hacl']
    simp [hm, hsel]

/-- Where the row is hidden, a lookup ends in one error. -/
theorem findActive_hidden (hh : Hidden env r id w) :
    ProgE.Ends env.exec (findActive id r) w (fun _ _ => False)
      fun e _ => e = hiddenError env r id := by
  unfold Hidden hiddenReply at hh
  unfold hiddenError
  cases hu : env.uuidIn r with
  | none =>
    rw [hu] at hh
    refine ProgE.Ends.bind (ends_await (Q := fun _ _ => False) fun a u he => ?_) fun _ _ h => h.elim
    obtain ⟨rfl, -⟩ := Prod.mk.inj (he.symm.trans hh)
    rfl
  | some v =>
    cases hi : env.uuidIn id with
    | none =>
      rw [hu, hi] at hh
      refine ProgE.Ends.bind (ends_await (Q := fun _ _ => False) fun a u he => ?_)
        fun _ _ h => h.elim
      obtain ⟨rfl, -⟩ := Prod.mk.inj (he.symm.trans hh)
      rfl
    | some k =>
      rw [hu, hi] at hh
      refine ProgE.Ends.bind (ends_await (Q := fun a _ => a = none) fun a u he => ?_) ?_
      · obtain ⟨rfl, -⟩ := Prod.mk.inj (he.symm.trans hh)
        rfl
      · rintro a w' rfl
        exact ProgE.ends_throw rfl

theorem findReadable_hidden (hh : Hidden env r id w) :
    ProgE.Ends env.exec (findReadable id r) w (fun _ _ => False)
      fun e _ => e = hiddenError env r id :=
  ProgE.Ends.bind (findActive_hidden hh) fun _ _ h => h.elim

theorem getMetadata_miss (hh : Hidden env r id w) (hc : w.metaCache (metaKey id) = none) :
    ProgE.Ends env.exec (getMetadata id r) w (fun _ _ => False)
      fun e _ => e = hiddenError env r id := by
  refine ProgE.Ends.bind (ends_await (Q := fun a u => a = none ∧ u = w) fun a u he => ?_) ?_
  · obtain ⟨rfl, rfl⟩ := Prod.mk.inj he
    exact ⟨hc, rfl⟩
  · rintro a u ⟨rfl, rfl⟩
    exact ProgE.Ends.bind (findReadable_hidden hh) fun _ _ h => h.elim

/-- A cached entry of a private media is refused to strangers in another way. -/
theorem getMetadata_hit {m : Media} {e : CachedMeta} (hc : w.metaCache (metaKey id) = some e)
    (he : e.Describes m) (hctx : m.context = MediaContext.MESSAGE.value) (hr : Stranger env m r) :
    ProgE.Ends env.exec (getMetadata id r) w (fun _ _ => False)
      fun e _ => e = .forbidden "Access denied" := by
  refine ProgE.Ends.bind (ends_await (Q := fun a u => a = some e ∧ u = w) fun a u he => ?_) ?_
  · obtain ⟨rfl, rfl⟩ := Prod.mk.inj he
    exact ⟨hc, rfl⟩
  · rintro a u ⟨rfl, rfl⟩
    have hdeny : enforceReadAccess e.dto.context e.dto.ownerId e.sharedWith r =
        .error (.forbidden "Access denied") := by
      have hacl : ¬ r ∈ m.sharedWith.getD [] := hr.acl
      obtain rfl := he
      simp [enforceReadAccess, toMetadataDto, hctx, PUBLIC_READABLE_CONTEXTS, MediaContext.value,
        Ne.symm hr.owner, hacl]
    refine ends_sync_bind (fun e' he' => ?_) fun _ hok => ?_
    · exact (Except.error.inj (he'.symm.trans hdeny))
    · exact absurd (hok.symm.trans hdeny) (by simp)

/-- A request that gets to the lookup ends in the error of a row that is not there. -/
theorem probe_hidden {x : Call} (hx : Probes id r x) (hh : Hidden env r id w)
    (hc : x = .getMetadata id r → w.metaCache (metaKey id) = none) :
    ((service env).serve x w).result = .error (hiddenError env r id) := by
  suffices h : ProgE.Ends env.exec (handle env x) w (fun _ _ => False)
      fun e _ => e = hiddenError env r id from
    (h.mono (fun _ _ h => h.elim) fun _ _ h => congrArg Except.error h).result
  have hread {α : Type} {f : Media → Svc α} : ProgE.Ends env.exec (findReadable id r >>= f) w
      (fun _ _ => False) fun e _ => e = hiddenError env r id :=
    ProgE.Ends.bind (findReadable_hidden hh) fun _ _ h => h.elim
  have hactive {α : Type} {f : Media → Svc α} : ProgE.Ends env.exec (findActive id r >>= f) w
      (fun _ _ => False) fun e _ => e = hiddenError env r id :=
    ProgE.Ends.bind (findActive_hidden hh) fun _ _ h => h.elim
  cases hx with
  | getMetadata => exact (getMetadata_miss hh (hc rfl)).map fun _ _ h => h
  | getBlob => exact hread.map fun _ _ h => h
  | getThumbnail => exact hread.map fun _ _ h => h
  | streamBlob => exact hread.map fun _ _ h => h
  | streamThumbnail => exact hread.map fun _ _ h => h
  | share userIds => exact hactive.map fun _ _ h => h
  | delete => exact hactive.map fun _ _ h => h

theorem hiddenError_ne_forbidden (message : String) :
    hiddenError env r id ≠ .forbidden message := by
  unfold hiddenError notFound
  split <;> simp

end Hidden

/-- Whether a private media exists makes no difference to a stranger's request, unless the request
asks for metadata that are cached. -/
theorem probe_same_iff (env : Env) (m : Media) (w w' : World) (id r : String) (x : Call)
    (hd : DifferOnlyIn env m w w') (hctx : m.context = MediaContext.MESSAGE.value)
    (hr : Stranger env m r) (hid : env.uuidIn id = some m.id) (hx : Probes id r x) :
    ((service env).serve x w).result = ((service env).serve x w').result ↔
      ¬ (x = .getMetadata id r ∧ (w.metaCache (metaKey id)).isSome = true) := by
  have hkey : IsMetaKey env m.id (metaKey id) := ⟨id, hid, rfl⟩
  have hwithout := probe_hidden hx (hidden_of_none (r := r) hid hd.noRow)
    fun _ => hd.noEntry _ hkey
  rw [hwithout]
  constructor
  · rintro hsame ⟨rfl, hc⟩
    obtain ⟨e, he⟩ := Option.isSome_iff_exists.mp hc
    have hends : ProgE.Ends env.exec (handle env (.getMetadata id r)) w (fun _ _ => False)
        fun e _ => e = .forbidden "Access denied" :=
      (getMetadata_hit he (hd.entry _ e hkey he) hctx hr).map fun _ _ h => h
    have hdenied : ((service env).serve (.getMetadata id r) w).result =
        .error (.forbidden "Access denied") :=
      (hends.mono (fun _ _ h => h.elim) fun _ _ h => congrArg Except.error h).result
    exact hiddenError_ne_forbidden _ (Except.error.inj (hsame.symm.trans hdenied))
  · intro hc
    refine probe_hidden hx (hidden_of_stranger hid hd.row hctx hr) fun hget => ?_
    cases he : w.metaCache (metaKey id) with
    | none => rfl
    | some e => exact absurd ⟨hget, by rw [he]; rfl⟩ hc

/-! A media that was uploaded and read, and the empty service -/

/-- One byte of ciphertext in a conversation. -/
def ciphertext : Call :=
  .upload (exampleId 7) ⟨"application/octet-stream", 1, some [0], none⟩ .MESSAGE none none

/-- The owner uploads it and asks for its metadata, which are cached. -/
def uploadThenRead : List (Label Call Act) :=
  .call ciphertext :: List.replicate 20 (.step 0) ++
    .call (.getMetadata (exampleId 1) (exampleId 7)) :: List.replicate 3 (.step 2)

instance (l : Label Call Act) : Decidable (∀ a, l ≠ .act a) :=
  match l with
  | .act a => isFalse fun h => h a rfl
  | .call _ | .step _ => isTrue fun _ => by simp

/-- The row of that upload. -/
def privateMedia : Media where
  id := exampleId 1
  ownerId := exampleId 7
  context := "message"
  storagePath := s!"messages/{exampleId 7}/{exampleId 1}.bin"
  thumbnailPath := none
  contentType := "application/octet-stream"
  blobSize := 1
  expiresAt := some 2592000000
  signedUrlExpiresAt := none
  isActive := true
  sharedWith := none
  createdAt := 0

theorem isMetaKey_example {i : Fin 10} {key : String} :
    IsMetaKey exampleEnv (exampleId i) key ↔ key = metaKey (exampleId i) := by
  constructor
  · rintro ⟨s, hs, rfl⟩
    have hs : exampleUuidIn s = some (exampleId i) := hs
    unfold exampleUuidIn at hs
    split at hs
    · rw [Option.some.inj hs]
    · exact absurd hs (by simp)
  · rintro rfl
    exact ⟨_, exampleId_canonical i, rfl⟩

theorem stranger_example : Stranger exampleEnv privateMedia (exampleId 2) := by
  refine ⟨by decide +kernel, by simp [Media.acl, privateMedia], fun u hu => ?_⟩
  obtain rfl : u = exampleId 2 := Option.some.inj (hu.symm.trans (exampleId_canonical 2))
  exact ⟨by decide +kernel, by simp [Media.acl, privateMedia]⟩

/-- After the upload and the read the world differs from the empty one in that media only. -/
theorem uploadThenRead_differs : ∃ p : ServicePool,
    (service exampleEnv).Runs (fun _ l => ∀ a, l ≠ .act a) ⟨World.empty, []⟩ p ∧
    DifferOnlyIn exampleEnv privateMedia p.world World.empty ∧
    p.world.metaCache (metaKey (exampleId 1)) =
      some ⟨toMetadataDto privateMedia, privateMedia.sharedWith⟩ := by
  have hplay : ((service exampleEnv).play (fun _ l => ∀ a, l ≠ .act a) ⟨World.empty, []⟩
      uploadThenRead).any (fun p => p.world.media.rows = [privateMedia] ∧
        p.world.quotas.rows.map (·.userId) = [exampleId 7] ∧
        p.world.metaCache (metaKey (exampleId 1)) =
          some ⟨toMetadataDto privateMedia, privateMedia.sharedWith⟩ ∧
        p.world.dedupCache (dedupKey (exampleId 7) .MESSAGE [1]) = some (exampleId 1) ∧
        p.world.semaphores (semaphoreKey (exampleId 7)) = none ∧ p.world.published = [] ∧
        p.world.now = 0 ∧ slotsWritten p = [
          .counter (semaphoreKey (exampleId 7)), .counter (semaphoreKey (exampleId 7)),
          .quotaEntry (QuotaService.cacheKey (exampleId 7)), .object privateMedia.storagePath,
          .dedupEntry (dedupKey (exampleId 7) .MESSAGE [1]),
          .quotaEntry (QuotaService.cacheKey (exampleId 7)),
          .counter (semaphoreKey (exampleId 7)), .counter (semaphoreKey (exampleId 7)),
          .metaEntry (metaKey (exampleId 1))]) = true := by
    decide +kernel
  obtain ⟨p, hp, hfacts⟩ := (Option.any_eq_true _ _).mp hplay
  obtain ⟨hrows, husers, hentry, hdedup, hsem, hpub, hnow, hslots⟩ := of_decide_eq_true hfacts
  have hrun := System.runs_of_play hp
  have hsame (s : Slot) (hs : s ∉ slotsWritten p) : SameAt World.empty p.world s :=
    sameAt_of_runs hrun hs
  rw [hslots] at hsame
  refine ⟨p, hrun, ?_, hentry⟩
  refine ⟨?_, rfl, fun id hid => ?_, fun key e hkey he => ?_, fun _ _ => rfl, fun key hkey => ?_,
    fun key hkey _ => ?_, fun key hkey => ?_, fun u hu => ?_, fun u hu => ?_, ?_, ?_, hpub, hnow⟩
  · exact Keyed.Table.get_some.mpr ⟨by rw [hrows]; exact List.mem_singleton_self _, rfl⟩
  · refine Keyed.Table.get_none.mpr ?_
    rw [hrows]
    simpa using hid
  · rw [isMetaKey_example.mp hkey, hentry] at he
    exact (Option.some.inj he).symm
  · refine hsame (.metaEntry key) ?_
    simpa using fun h => hkey (isMetaKey_example.mpr h)
  · refine hsame (.object key) ?_
    simpa using fun h => hkey h.symm
  · by_cases hk : key = dedupKey (exampleId 7) .MESSAGE [1]
    · exact absurd (hk ▸ hdedup) hkey
    · exact hsame (.dedupEntry key) (by simpa using hk)
  · refine Keyed.Table.get_none.mpr ?_
    rw [husers, List.mem_singleton]
    exact hu
  · refine hsame (.quotaEntry _) ?_
    simp only [List.mem_cons, reduceCtorEq, Slot.quotaEntry.injEq, List.not_mem_nil, or_false,
      false_or, or_self]
    intro hk
    exact hu (QuotaService.cacheKey_injective hk ▸ exampleId_canonical 7)
  · funext key
    by_cases hk : key = semaphoreKey (exampleId 7)
    · rw [hk, hsem]
      rfl
    · exact hsame (.counter key) (by simpa using hk)
  · funext key
    exact hsame (.cooldown key) (by simp)

theorem probe_same_iff_of_upload : ∃ p : ServicePool,
    (service exampleEnv).Runs (fun _ l => ∀ a, l ≠ .act a) ⟨World.empty, []⟩ p ∧
    (((service exampleEnv).serve (.getMetadata (exampleId 1) (exampleId 2)) p.world).result =
        ((service exampleEnv).serve (.getMetadata (exampleId 1) (exampleId 2)) World.empty).result ↔
      ¬ (Call.getMetadata (exampleId 1) (exampleId 2) = .getMetadata (exampleId 1) (exampleId 2) ∧
        (p.world.metaCache (metaKey (exampleId 1))).isSome = true)) := by
  obtain ⟨p, hrun, hd, -⟩ := uploadThenRead_differs
  exact ⟨p, hrun, probe_same_iff exampleEnv privateMedia p.world World.empty (exampleId 1)
    (exampleId 2) _ hd rfl stranger_example (exampleId_canonical 1) .getMetadata⟩

/-- A stranger's request for metadata tells whether a private media exists. -/
theorem existence_probed :
    ¬ ∀ (env : Env) (m : Media) (p p' : ServicePool) (id r : String) (x : Call),
      (service env).Runs (fun _ _ => True) ⟨World.empty, []⟩ p →
      (service env).Runs (fun _ _ => True) ⟨World.empty, []⟩ p' →
      DifferOnlyIn env m p.world p'.world → m.context = MediaContext.MESSAGE.value →
      Stranger env m r → env.uuidIn id = some m.id → Probes id r x →
      ((service env).serve x p.world).result = ((service env).serve x p'.world).result := by
  intro hall
  obtain ⟨p, hrun, hd, hentry⟩ := uploadThenRead_differs
  have hsame := hall exampleEnv privateMedia p ⟨World.empty, []⟩ (exampleId 1) (exampleId 2) _
    (hrun.mono fun _ _ _ => trivial) (.refl _) hd rfl stranger_example (exampleId_canonical 1)
    .getMetadata
  have hends : ProgE.Ends exampleEnv.exec (handle exampleEnv (.getMetadata (exampleId 1)
      (exampleId 2))) p.world (fun _ _ => False) fun e _ => e = .forbidden "Access denied" :=
    (getMetadata_hit hentry rfl rfl stranger_example).map fun _ _ h => h
  have hdenied : ((service exampleEnv).serve (.getMetadata (exampleId 1) (exampleId 2))
      p.world).result = .error (.forbidden "Access denied") :=
    (hends.mono (fun _ _ h => h.elim) fun _ _ h => congrArg Except.error h).result
  have hhidden : Hidden exampleEnv (exampleId 2) (exampleId 1) World.empty :=
    hidden_of_none (exampleId_canonical 1) rfl
  have hmissing := probe_hidden Probes.getMetadata hhidden fun _ => rfl
  rw [hdenied, hmissing] at hsame
  exact hiddenError_ne_forbidden _ (Except.error.inj hsame).symm

end WhisprMedia
