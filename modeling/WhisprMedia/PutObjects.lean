import WhisprMedia.Ownership
import WhisprMedia.SerialTraces
import WhisprMedia.StoredMedia

/-! What an upload puts into the bucket when it runs alone, and what of it is left if it throws. -/
namespace WhisprMedia
open Awaiting Keyed MediaService QuotaService StorageService

/-- The key of a PUT. -/
def Cmd.putKey? : Cmd → Option String
  | .putObject key _ => some key
  | _ => none

def putKeys (log : ServiceLog) : List String := log.filterMap fun e => e.1.putKey?

/-- A key of an id that has been drawn. -/
def KeyDrawn (env : Env) (w : World) (key : String) : Prop :=
  ∃ n < w.drawn, PathOf (env.randomUUID n) key

/-! Logs of runs -/

section Runs
variable {env : Env} {w : World} {key : String} {α : Type}

theorem mem_putKeys {log : ServiceLog} : key ∈ putKeys log ↔
    ∃ object r, (⟨.putObject key object, r⟩ : Event Cmd Cmd.Reply) ∈ log := by
  unfold putKeys
  rw [List.mem_filterMap]
  constructor
  · rintro ⟨⟨c, r⟩, he, hkey⟩
    cases c with
    | putObject key' object =>
      obtain rfl := Option.some.inj hkey
      exact ⟨object, r, he⟩
    | _ => exact absurd hkey (by simp [Cmd.putKey?])
  · rintro ⟨object, r, he⟩
    exact ⟨_, he, rfl⟩

theorem bucket_none_exec {c : Cmd} (hc : c.putKey? ≠ some key) (h : w.bucket key = none) :
    (env.exec c w).2.bucket key = none := by
  by_cases hf : c.family = .bucket
  · cases c <;> simp only [Cmd.family, reduceCtorEq] at hf
    case putObject key' object =>
      have hne : key ≠ key' := fun he => hc (congrArg some he.symm)
      exact (Function.update_of_ne hne _ _).trans h
    case getObject key' =>
      simp only [Env.exec]
      split <;> exact h
    case deleteObject key' =>
      show Function.update w.bucket key' none key = none
      by_cases hk : key = key'
      · rw [hk, Function.update_self]
      · rw [Function.update_of_ne hk, h]
  · rw [exec_bucket hf, h]

/-- Where no object was and none is put, none is. -/
theorem bucket_none_of_run {p : Prog Cmd Cmd.Reply α}
    (hkey : key ∉ putKeys (Prog.run env.exec p w).log) (h : w.bucket key = none) :
    (Prog.run env.exec p w).world.bucket key = none := by
  induction p generalizing w with
  | pure a => exact h
  | step c k ih =>
    rw [Prog.run_step] at hkey ⊢
    rw [mem_putKeys] at hkey
    refine ih _ (fun hmem => hkey ?_) (bucket_none_exec (fun hc => hkey ?_) h)
    · obtain ⟨object, r, he⟩ := mem_putKeys.mp hmem
      exact ⟨object, r, List.mem_cons_of_mem _ he⟩
    · cases c with
      | putObject key' object =>
        obtain rfl := Option.some.inj hc
        exact ⟨object, _, List.mem_cons_self⟩
      | _ => exact absurd hc (by simp [Cmd.putKey?])

/-- An id in the log of a run has been drawn in it. -/
theorem drawn_of_run {p : Prog Cmd Cmd.Reply α} {id : String}
    (h : Drew (Prog.run env.exec p w).log id) :
    DrawnBetween env w (Prog.run env.exec p w).world id := by
  induction p generalizing w with
  | pure a => exact absurd h List.not_mem_nil
  | step c k ih =>
    rw [Prog.run_step] at h ⊢
    rcases List.mem_cons.mp h with he | he
    · cases c with
      | randomUUID =>
        have hle := @drawn_le_run env (env.exec .randomUUID w).2 α (k (env.exec .randomUUID w).1)
        exact ⟨w.drawn, Nat.le_refl _, hle, by simpa [Env.exec] using he⟩
      | _ => exact absurd (congrArg Sigma.fst he) (by simp)
    · exact (ih _ he).mono drawn_le_exec (Nat.le_refl _)

/-- An upload puts its objects under keys of ids that it draws. -/
theorem putKeys_of_upload {ownerId : String} {file : File} {context : MediaContext}
    {thumbnailFile : Option File} {sharedWith : Option (List String)} (h : key ∈ putKeys
      ((service env).serve (.upload ownerId file context thumbnailFile sharedWith) w).log) :
    ∃ id, PathOf id key ∧ DrawnBetween env w
      ((service env).serve (.upload ownerId file context thumbnailFile sharedWith) w).world id := by
  obtain ⟨object, r, he⟩ := mem_putKeys.mp h
  obtain ⟨l₁, l₂, hlog⟩ := List.append_of_mem he
  have hfollows := Prog.follows_run env.exec
    (handle env (.upload ownerId file context thumbnailFile sharedWith)).run w
  rw [show (Prog.run env.exec (handle env (.upload ownerId file context thumbnailFile
    sharedWith)).run w).log = l₁ ++ ⟨.putObject key object, r⟩ :: l₂ from hlog] at hfollows
  obtain ⟨id, hdrew, hpath⟩ :=
    Prog.IssuesAfter.of_split (handle_owns env (r := ownerId) rfl []) hfollows
  refine ⟨id, hpath, drawn_of_run ?_⟩
  show Drew ((service env).serve _ w).log id
  rw [hlog]
  exact hdrew.append _

end Runs

theorem PathOf.ne_empty {id path : String} (h : PathOf id path) : path ≠ "" := by
  rintro rfl
  obtain ⟨c, o, hp⟩ := h
  obtain ⟨t, ht⟩ := under_of_buildPath hp
  cases c <;> exact absurd (congrArg List.length ht) (by simp [keyPrefix])

/-! What an upload has checked -/

/-- What an upload checks before it looks for a duplicate. -/
def uploadChecks (env : Env) (ownerId : String) (file : File) (context : MediaContext) :
    Svc Unit := do
  acquireSemaphore ownerId
  authorizeGroupIconUpload env context ownerId
  enforceQuota ownerId (.int file.size)
  validateFile env file context

/-- An upload in this world gets past its checks. -/
def PassesChecks (env : Env) (w : World) (ownerId : String) (file : File)
    (context : MediaContext) : Prop :=
  (Prog.run env.exec (uploadChecks env ownerId file context).run w).result = .ok ()

section Checked
variable {env : Env} {w : World} {ownerId : String} {file : File} {context : MediaContext}
  {thumbnailFile : Option File} {sharedWith : Option (List String)} {dto : UploadMediaResponseDto}

/-- Given that the parts of a sequence return, it returns what the last one does. -/
theorem run_result_bind {α β : Type} {x : Svc α} {f : α → Svc β} {a : α}
    (ha : (Prog.run env.exec x.run w).result = .ok a) :
    (Prog.run env.exec (x >>= f).run w).result =
      (Prog.run env.exec (f a).run (Prog.run env.exec x.run w).world).result :=
  (ProgE.run_bind_of_ok ha).2.1

/-- An upload that was answered has returned. -/
theorem upload_of_serve (h : ((service env).serve
      (.upload ownerId file context thumbnailFile sharedWith) w).result = .ok (.uploaded dto)) :
    (Prog.run env.exec (upload env ownerId file context thumbnailFile sharedWith).run w).result =
      .ok dto := by
  have hmap : (Prog.run env.exec (upload env ownerId file context thumbnailFile sharedWith).run
      w).result.map Reply.uploaded = .ok (.uploaded dto) :=
    (ProgE.run_map (h := env.exec)).2.1.symm.trans h
  cases hrun : (Prog.run env.exec (upload env ownerId file context thumbnailFile sharedWith).run
      w).result with
  | ok dto' =>
    rw [hrun] at hmap
    rw [Reply.uploaded.inj (Except.ok.inj hmap)]
  | error e =>
    rw [hrun] at hmap
    cases hmap

theorem passesChecks_of_ok
    (h : (Prog.run env.exec (upload env ownerId file context thumbnailFile sharedWith).run
      w).result = .ok dto) : PassesChecks env w ownerId file context := by
  obtain ⟨⟨⟩, hacquire, h⟩ := ProgE.run_bind_ok h
  obtain ⟨⟨⟩, hgroup, h⟩ := ProgE.run_bind_ok (ProgE.run_ensuring_ok h)
  obtain ⟨⟨⟩, hquota, h⟩ := ProgE.run_bind_ok h
  obtain ⟨⟨⟩, hfile, -⟩ := ProgE.run_bind_ok h
  unfold PassesChecks uploadChecks
  rw [run_result_bind hacquire, run_result_bind hgroup, run_result_bind hquota, hfile]

/-- The size of a file that passes is one that the quota can be charged with. -/
theorem PassesChecks.size (h : PassesChecks env w ownerId file context) :
    validateBlobSize (.int file.size) = .ok () := by
  obtain ⟨⟨⟩, -, h⟩ := ProgE.run_bind_ok h
  obtain ⟨⟨⟩, -, h⟩ := ProgE.run_bind_ok h
  obtain ⟨⟨⟩, h, -⟩ := ProgE.run_bind_ok h
  obtain ⟨_, h, -⟩ := ProgE.run_bind_ok h
  obtain ⟨⟨⟩, h, -⟩ := ProgE.run_bind_ok h
  exact h

/-- A fresh upload has checked its thumbnail. -/
theorem validateThumbnail_of_ok
    (hmiss : duplicateOf env w ownerId (uploadKey env ownerId file context) = none)
    (h : (Prog.run env.exec (upload env ownerId file context thumbnailFile sharedWith).run
      w).result = .ok dto) : ∀ thumbnail ∈ thumbnailFile, validateThumbnail thumbnail = .ok () := by
  obtain ⟨⟨⟩, hacquire, h⟩ := ProgE.run_bind_ok h
  have h₁ := (ends_calm (faithful_exec env) (acquireSemaphore_touches ownerId) (by decide)).of_ok
    hacquire
  obtain ⟨⟨⟩, hgroup, h⟩ := ProgE.run_bind_ok (ProgE.run_ensuring_ok h)
  have h₂ := (ends_calm (faithful_exec env) (authorizeGroupIconUpload_touches env context ownerId)
    (by decide)).of_ok hgroup
  obtain ⟨⟨⟩, hquota, h⟩ := ProgE.run_bind_ok h
  have h₃ := (ends_calm (faithful_exec env) (enforceQuota_touches ownerId (.int file.size))
    (by decide)).of_ok hquota
  obtain ⟨⟨⟩, hfile, h⟩ := ProgE.run_bind_ok h
  have h₄ := (ends_calm (faithful_exec env) (validateFile_touches env file context)
    (by decide)).of_ok hfile
  obtain ⟨existing, hfind, h⟩ := ProgE.run_bind_ok h
  -- the lookup is made in a world with the rows and dedup entries of the first one
  have hnone : existing = none := by
    have hexisting := ((findDuplicate_ends _).of_ok hfind).2
    rw [duplicateOf_calm (((h₁.trans h₂).trans h₃).trans h₄)] at hexisting
    exact hexisting.trans hmiss
  subst hnone
  obtain ⟨media, hnew, -⟩ := ProgE.run_bind_ok h
  obtain ⟨id, -, hnew⟩ := ProgE.run_bind_ok hnew
  obtain ⟨path, -, hnew⟩ := ProgE.run_bind_ok hnew
  obtain ⟨⟨⟩, -, hnew⟩ := ProgE.run_bind_ok hnew
  obtain ⟨thumbnailPath, hstore, -⟩ := ProgE.run_bind_ok hnew
  intro thumbnail ht
  obtain rfl := Option.mem_def.mp ht
  obtain ⟨⟨⟩, hvalid, -⟩ := ProgE.run_bind_ok hstore
  exact hvalid

end Checked

/-! What an upload that throws leaves -/

/-- The upload comes as far as its thumbnail, which is refused. -/
def RefusesThumbnail (env : Env) (w : World) (ownerId : String) (file : File)
    (context : MediaContext) (thumbnailFile : Option File) : Prop :=
  PassesChecks env w ownerId file context ∧
    duplicateOf env w ownerId (uploadKey env ownerId file context) = none ∧
    ∃ thumbnail ∈ thumbnailFile, validateThumbnail thumbnail ≠ .ok ()

/-- A row has been committed that was not there. -/
def NewRow (w w' : World) : Prop := ∃ k, w.media.get k = none ∧ (w'.media.get k).isSome = true

/-- No object is there that was not there before. -/
def NoNewObject (w w' : World) : Prop :=
  ∀ key, w'.bucket key = w.bucket key ∨ w'.bucket key = none

section Thrown
variable {env : Env} {w : World} {ownerId id path : String} {file : File} {context : MediaContext}
  {thumbnailFile : Option File} {sharedWith : Option (List String)}

theorem noNewObject_of_eq {w' : World} (h : w'.bucket = w.bucket) : NoNewObject w w' :=
  fun key => Or.inl (congrFun h key)

theorem newRow_insert {m : Media} (h : w.media.get m.id = none) :
    NewRow w { w with media := w.media.insert m } := by
  have hget : (w.media.insert m).get m.id = some m := by rw [get_insertMedia h, if_pos rfl]
  exact ⟨m.id, h, by rw [hget]; rfl⟩

/-- The clean-up removes both objects and stores none. -/
theorem deleteStored_clears {thumbnailPath : Option String} :
    ProgE.Ends env.exec (deleteStored path thumbnailPath) w
      (fun _ w' => NoNewObject w w' ∧ w'.bucket path = none ∧
        ∀ p, truthy thumbnailPath = some p → w'.bucket p = none) (fun _ _ => False) := by
  refine ends_quietly_bind (v := ()) rfl ?_
  split
  · next p hp =>
    refine ProgE.Ends.tryCatch (E := fun _ _ => False) (ends_await_ok rfl ?_) fun _ _ h => h.elim
    refine ⟨fun key => ?_, ?_, fun p' hp' => ?_⟩
    · rcases update_none_or (Function.update w.bucket path none) p key with h | h
      · exact (update_none_or w.bucket path key).imp h.trans h.trans
      · exact Or.inr h
    · rcases update_none_or (Function.update w.bucket path none) p path with h | h
      · exact h.trans (Function.update_self _ _ _)
      · exact h
    · obtain rfl := Option.some.inj (hp.symm.trans hp')
      exact Function.update_self _ _ _
  · next hp =>
    exact ProgE.ends_pure ⟨update_none_or w.bucket path, Function.update_self _ _ _,
      fun p hp' => absurd (hp.symm.trans hp') (by simp)⟩

/-- A thumbnail is stored unless it is refused. -/
theorem storeThumbnail_refused {p : String} (hp : buildPath .thumbnails ownerId id = .ok p) :
    ProgE.Ends env.exec (storeThumbnail ownerId id thumbnailFile) w (fun _ _ => True)
      (fun _ _ => ∃ thumbnail ∈ thumbnailFile, validateThumbnail thumbnail ≠ .ok ()) := by
  cases thumbnailFile with
  | none => exact ProgE.ends_pure trivial
  | some thumbnail =>
    refine ends_sync_bind (fun e he => ⟨thumbnail, rfl, by simp [he]⟩) fun _ _ => ends_sync_bind
      (fun e he => absurd (he.symm.trans hp) (by simp)) fun p _ => ?_
    exact ends_await_bind (v := ()) (u := (env.exec (.putObject p (fileObject thumbnail)) w).2) rfl
      (ProgE.ends_pure trivial)

/-- A fresh upload that throws has removed what it has put, or it has put the blob and refuses the
thumbnail. -/
theorem storeNew_thrown :
    ProgE.Ends env.exec (storeNew env ownerId file context thumbnailFile sharedWith) w
      (fun _ w' => NewRow w w')
      (fun _ w' => NoNewObject w w' ∨
        (∃ thumbnail ∈ thumbnailFile, validateThumbnail thumbnail ≠ .ok ()) ∧
          ∀ key, w'.bucket key = w.bucket key ∨ w'.bucket key = some (fileObject file)) := by
  refine ends_await_bind (u := { w with drawn := w.drawn + 1 }) rfl (ends_sync_bind
    (fun _ _ => Or.inl (noNewObject_of_eq rfl)) fun path hpath => ?_)
  let w₁ : World := (env.exec (.putObject path (fileObject file)) { w with drawn := w.drawn + 1 }).2
  have hblob (key : String) : key = path ∨ w₁.bucket key = w.bucket key :=
    or_iff_not_imp_left.mpr fun hk => Function.update_of_ne hk _ _
  obtain ⟨p, hp⟩ := buildPath_of_ok .thumbnails hpath
  refine ends_await_bind (v := ()) (u := w₁) rfl ?_
  refine ProgE.Ends.bind (((storeThumbnail_ends _).and (storeThumbnail_refused hp)).mono
    (fun _ _ h => h.1) fun _ w' h => ?_) fun thumbnailPath w₂ h₂ => ?_
  · obtain ⟨rfl, hthumb⟩ := h
    refine Or.inr ⟨hthumb, fun key => ?_⟩
    rcases hblob key with rfl | h
    · exact Or.inr (Function.update_self _ _ _)
    · exact Or.inl h
  · -- what the upload has put by now
    obtain ⟨hmedia, hbucket⟩ : w₂.media = w.media ∧
        ∀ key, key = path ∨ truthy thumbnailPath = some key ∨ w₂.bucket key = w.bucket key := by
      rcases h₂ with ⟨-, rfl, rfl⟩ | ⟨thumbnail, p, -, rfl, hp, hw₂⟩
      · exact ⟨rfl, fun key => (hblob key).imp_right Or.inr⟩
      · rw [hw₂]
        refine ⟨rfl, fun key => ?_⟩
        by_cases hk : key = p
        · have hne : p ≠ "" := PathOf.ne_empty ⟨_, _, hp⟩
          exact Or.inr (Or.inl (by simp [truthy, hk, hne]))
        · exact (hblob key).imp_right fun h => Or.inr ((Function.update_of_ne hk _ _).trans h)
    refine ProgE.Ends.bind (computeExpiresAt_ends.mono (fun _ _ h => h.1) fun _ _ h => h.elim)
      fun expiresAt w₃ h₃ => ?_
    subst h₃
    refine ProgE.Ends.bind (Q := fun _ w' => NewRow w w') (ProgE.Ends.tryCatch
      (E := fun _ w' => w' = w₃) (ends_await fun r u he => ?_) fun e _ h => ?_)
      fun _ _ h => ProgE.ends_pure h
    · rcases exec_saveMedia he with ⟨m, rfl, -, -, hfresh, rfl⟩ | ⟨e, rfl, rfl⟩
      · obtain ⟨k, hk, hk'⟩ := newRow_insert hfresh
        exact ⟨k, hmedia ▸ hk, hk'⟩
      · rfl
    · subst h
      refine ProgE.Ends.bind (deleteStored_clears.mono (fun _ _ h => h) fun _ _ h => h.elim)
        fun _ w₄ h₄ => ProgE.ends_throw (Or.inl fun key => ?_)
      obtain ⟨hkept, hgone, hgone'⟩ := h₄
      rcases hbucket key with rfl | hthumb | hsame
      · exact Or.inr hgone
      · exact Or.inr (hgone' key hthumb)
      · exact (hkept key).imp_left fun h => h.trans hsame

/-- How an upload that throws has changed the bucket. -/
def ThrownBucket (env : Env) (w : World) (ownerId : String) (file : File) (context : MediaContext)
    (thumbnailFile : Option File) (w' : World) : Prop :=
  NewRow w w' ∨ NoNewObject w w' ∨ RefusesThumbnail env w ownerId file context thumbnailFile ∧
    ∀ key, w'.bucket key = w.bucket key ∨ w'.bucket key = some (fileObject file)

theorem ThrownBucket.between {w₀ w' w'' : World}
    (h : ThrownBucket env w₀ ownerId file context thumbnailFile w') (hm : w''.media = w'.media)
    (hb : w''.bucket = w'.bucket) : ThrownBucket env w₀ ownerId file context thumbnailFile w'' := by
  unfold ThrownBucket NewRow NoNewObject
  rw [hm, hb]
  exact h

theorem upload_thrown :
    ProgE.Ends env.exec (upload env ownerId file context thumbnailFile sharedWith) w
      (fun _ _ => True) (fun _ => ThrownBucket env w ownerId file context thumbnailFile) := by
  have hcalm {α : Type} {F : List Family} {x : Svc α} (u : World) (hx : Touches F x)
      (hF : ∀ f ∈ F, f.calm = true) := (ends_calm (w := u) (faithful_exec env) hx hF).and_run
  have hsame {u : World} (hc : Calm w u) :
      ThrownBucket env w ownerId file context thumbnailFile u :=
    Or.inr (Or.inl (noNewObject_of_eq hc.bucket))
  refine ProgE.Ends.bind ((hcalm w (acquireSemaphore_touches ownerId) (by decide)).mono
    (fun _ _ h => h) fun _ _ h => hsame h) fun _ u₁ h₁ => ?_
  obtain ⟨hc₁, hacquire, rfl⟩ := h₁
  refine ProgE.Ends.ensuring (Q := fun _ _ => True)
    (E := fun _ => ThrownBucket env w ownerId file context thumbnailFile) ?_
    (fun _ v _ => releaseSemaphore_ends.mono (fun _ _ _ => trivial) fun _ _ h => h.elim)
    fun e v h => releaseSemaphore_ends.mono (fun _ _ hi => h.between hi.rows hi.bucket)
      fun _ _ h => h.elim
  refine ProgE.Ends.bind ((hcalm _ (authorizeGroupIconUpload_touches env context ownerId)
    (by decide)).mono (fun _ _ h => h) fun _ _ h => hsame (hc₁.trans h)) fun _ u₂ h₂ => ?_
  obtain ⟨hc₂, hgroup, rfl⟩ := h₂
  replace hc₂ := hc₁.trans hc₂
  refine ProgE.Ends.bind ((hcalm _ (enforceQuota_touches ownerId (.int file.size))
    (by decide)).mono (fun _ _ h => h) fun _ _ h => hsame (hc₂.trans h)) fun _ u₃ h₃ => ?_
  obtain ⟨hc₃, hquota, rfl⟩ := h₃
  replace hc₃ := hc₂.trans hc₃
  refine ProgE.Ends.bind ((hcalm _ (validateFile_touches env file context) (by decide)).mono
    (fun _ _ h => h) fun _ _ h => hsame (hc₃.trans h)) fun _ u₄ h₄ => ?_
  obtain ⟨hc₄, hfile, hu₄⟩ := h₄
  replace hc₄ := hc₃.trans hc₄
  have hpassed : PassesChecks env w ownerId file context := by
    unfold PassesChecks uploadChecks
    rw [run_result_bind hacquire, run_result_bind hgroup, run_result_bind hquota, hfile]
  refine ProgE.Ends.bind ((findDuplicate_ends _).mono (fun _ _ h => h)
    fun _ _ h => hsame (h ▸ hc₄)) fun existing u₅ h₅ => ?_
  obtain ⟨rfl, hdup⟩ := h₅
  rw [duplicateOf_calm hc₄] at hdup
  cases existing with
  | some existing =>
    -- a dedup hit stores nothing
    refine ProgE.Ends.bind ((mergeSharedWith_ends existing).mono (fun _ _ h => h) fun _ _ h =>
      Or.inr (Or.inl (noNewObject_of_eq (h.bucket.trans hc₄.bucket)))) fun _ u₆ h₆ => ?_
    exact (buildUploadResponse_ends existing).mono (fun _ _ _ => trivial) fun _ _ h => h.elim
  | none =>
    refine ProgE.Ends.bind (storeNew_thrown.mono (fun _ _ h => h) fun _ w' h => ?_)
      fun media u₆ h₆ => ?_
    · rcases h with h | ⟨hthumb, hbucket⟩
      · exact Or.inr (Or.inl fun key => hc₄.bucket ▸ h key)
      · exact Or.inr (Or.inr ⟨⟨hpassed, hdup.symm, hthumb⟩, fun key => hc₄.bucket ▸ hbucket key⟩)
    · -- once the row is inserted it stays
      have hmedia := ends_of_touches (h := env.exec) (w := u₆)
        (S := fun u v => v.media = u.media)
        (afterStore_touches env ownerId file
          (dedupKey ownerId context (env.sha256 (fileBuffer file))) media)
        (fun _ => rfl) (fun _ _ _ h h' => h'.trans h)
        fun c u hc => exec_media ((by decide : ∀ f ∈ [Family.dedup, .quotaCharge, .quotaCache,
          .background, .outside], f.writesMedia = false) _ hc)
      refine hmedia.mono (fun _ _ _ => trivial) fun _ w' h => Or.inl ?_
      obtain ⟨k, hk, hk'⟩ := h₆
      exact ⟨k, hc₄.rows ▸ hk, h ▸ hk'⟩

end Thrown

end WhisprMedia
