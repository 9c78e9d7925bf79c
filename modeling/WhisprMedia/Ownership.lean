import WhisprMedia.MediaController
import WhisprMedia.ServiceRules

/-! What a request may write: the commands that a body issues for a user are about keys, rows
and statements of this user, and about objects under ids that were answered to it before. -/
namespace WhisprMedia
open Awaiting MediaService QuotaService

/-- The id was drawn in this log. -/
def Drew (log : ServiceLog) (id : String) : Prop :=
  (⟨.randomUUID, .ok id⟩ : Event Cmd Cmd.Reply) ∈ log

/-- The row was found in this log. -/
def Found (log : ServiceLog) (m : Media) : Prop :=
  ∃ user id, (⟨.findMedia user id, .ok (some m)⟩ : Event Cmd Cmd.Reply) ∈ log

/-- After the log, the command is one that may be issued for the user `r`. -/
def Own (r : String) (log : ServiceLog) : Cmd → Prop
  | .incr key | .decr key | .del key | .expire key _ => key = semaphoreKey r
  | .setDedup key _ _ => ∃ context digest, key = dedupKey r context digest
  | .saveMedia user media => user = r ∧ Drew log media.id ∧
      ∀ path, media.RefersTo path → PathOf media.id path
  | .updateSharedWith user _ _ | .softDelete user _ | .updateSignedUrlExpiry user _ _ => user = r
  | .insertQuotaOrIgnore userId | .chargeQuota userId _ | .releaseQuota userId _ => userId = r
  | .resetDailyUploads => False
  | .putObject key _ => ∃ id, Drew log id ∧ PathOf id key
  | .deleteObject key => (∃ id, Drew log id ∧ PathOf id key) ∨
      ∃ m, Found log m ∧ m.ownerId = r ∧ m.RefersTo key
  | _ => True

abbrev Owns {α : Type} (r : String) (log : ServiceLog) (x : Svc α) : Prop :=
  ProgE.IssuesAfter (Own r) log x

/-- The families whose commands write nothing that belongs to a user. -/
def Family.ownerless : Family → Bool
  | .alerts | .metadata | .quotaCache | .quotaFill | .mediaLookup | .mediaList | .outside
  | .draws | .background => true
  | _ => false

section Rules
variable {α β : Type} {r : String} {log : ServiceLog}

theorem owns_await {c : Cmd} (h : Own r log c) : Owns r log (await c) := ProgE.issuesAfter_issue h

/-- A command before the part that matters; the part sees its answer in the log. -/
theorem owns_await_bind {c : Cmd} {f : c.Value → Svc β} (h : Own r log c)
    (hf : ∀ v, Owns r (log ++ [⟨c, .ok v⟩]) (f v)) : Owns r log (await c >>= f) :=
  ProgE.IssuesAfter.bind (owns_await h) fun v _ hl => follows_await hl ▸ hf v

theorem owns_quietly {c : Cmd} {v : c.Value} (h : Own r log c) :
    Owns r log (tryCatch (await c) fun _ => pure v) :=
  ProgE.IssuesAfter.tryCatch (owns_await h) fun _ _ _ => ProgE.issuesAfter_pure _

theorem owns_of_touches {F : List Family} {x : Svc α} (hx : Touches F x)
    (hF : ∀ f ∈ F, f.ownerless = true) : Owns r log x := by
  refine ProgE.Issues.after hx.issues fun log c hc => ?_
  have hf := hF _ hc
  cases c <;> simp only [Cmd.family, Family.ownerless, Bool.false_eq_true] at hf <;> trivial

theorem owns_sync_bind {x : Except Err α} {f : α → Svc β} (hf : ∀ a, x = .ok a → Owns r log (f a)) :
    Owns r log (sync x >>= f) := by
  cases x with
  | ok a => exact hf a rfl
  | error e => trivial

theorem Drew.append {id : String} (h : Drew log id) (l : ServiceLog) : Drew (log ++ l) id :=
  List.mem_append_left l h

theorem Found.append {m : Media} (h : Found log m) (l : ServiceLog) : Found (log ++ l) m := by
  obtain ⟨user, id, hmem⟩ := h
  exact ⟨user, id, List.mem_append_left l hmem⟩

end Rules

section Functions
variable {r : String} {log : ServiceLog}

/-! The semaphore and the quota -/

theorem acquireSemaphore_owns : Owns r log (acquireSemaphore r) := by
  refine owns_await_bind rfl fun count => owns_await_bind rfl fun _ => ?_
  split
  · exact owns_await_bind rfl fun _ => ProgE.issuesAfter_throw _
  · exact ProgE.issuesAfter_pure _

theorem releaseSemaphore_owns : Owns r log (releaseSemaphore r) := by
  refine owns_await_bind rfl fun remaining => ?_
  split
  · exact owns_await rfl
  · exact ProgE.issuesAfter_pure _

theorem findOrInsertRow_owns : Owns r log (findOrInsertRow r) := by
  refine owns_await_bind trivial fun row => ?_
  split
  · exact ProgE.issuesAfter_pure _
  · refine owns_await_bind rfl fun _ => owns_await_bind trivial fun row => ?_
    split
    · exact ProgE.issuesAfter_pure _
    · exact ProgE.issuesAfter_throw _

theorem getOrCreateQuota_owns : Owns r log (getOrCreateQuota r) := by
  refine ProgE.IssuesAfter.bind (owns_quietly trivial) fun cached l₁ _ => ?_
  split
  · exact trivial
  · refine findOrInsertRow_owns.bind fun quota l₂ _ => ?_
    exact ProgE.IssuesAfter.bind (owns_quietly trivial) fun _ _ _ => ProgE.issuesAfter_pure _

theorem checkQuota_owns (blobSize : JsNumber) : Owns r log (checkQuota r blobSize) :=
  owns_sync_bind fun _ _ => getOrCreateQuota_owns.bind fun _ _ _ => ProgE.issuesAfter_pure _

theorem enforceQuota_owns (blobSize : JsNumber) : Owns r log (enforceQuota r blobSize) :=
  (checkQuota_owns blobSize).bind fun _ _ _ => trivial

theorem invalidateCache_owns (userId : String) : Owns r log (invalidateCache userId) :=
  owns_of_touches (invalidateCache_touches userId) (by decide)

theorem recordUpload_owns (blobSize : JsNumber) : Owns r log (recordUpload r blobSize) :=
  owns_sync_bind fun _ _ => owns_await_bind rfl fun _ => owns_sync_bind fun _ _ =>
    (invalidateCache_owns r).bind fun _ _ _ => owns_await trivial

theorem recordDelete_owns (blobSize : JsNumber) : Owns r log (recordDelete r blobSize) :=
  owns_sync_bind fun _ _ => owns_await_bind rfl fun _ => owns_sync_bind fun _ _ =>
    invalidateCache_owns r

theorem checkAndPublishQuotaAlert_owns : Owns r log (checkAndPublishQuotaAlert r) := by
  refine getOrCreateQuota_owns.bind fun quota l _ => ?_
  split
  · exact ProgE.issuesAfter_pure _
  · exact owns_of_touches (publishQuotaAlerts_touches _ _ _ _) (by decide)

/-! Uploads -/

theorem findDuplicate_owns (key : String) : Owns r log (findDuplicate r key) := by
  refine owns_await_bind trivial fun existingId => ?_
  split
  · exact owns_await trivial
  · exact ProgE.issuesAfter_pure _

theorem mergeSharedWith_owns (existing : Media) (sharedWith : Option (List String)) :
    Owns r log (mergeSharedWith r existing sharedWith) := by
  unfold mergeSharedWith
  dsimp only
  split
  · exact owns_await_bind rfl fun _ => owns_await trivial
  · exact ProgE.issuesAfter_pure _

theorem buildUploadResponse_owns (env : Env) (media : Media) :
    Owns r log (buildUploadResponse env media) :=
  owns_of_touches (buildUploadResponse_touches env media) (by decide)

theorem storeThumbnail_owns {id : String} (hid : Drew log id) (thumbnailFile : Option File) :
    Owns r log (storeThumbnail r id thumbnailFile) := by
  cases thumbnailFile with
  | none => exact ProgE.issuesAfter_pure _
  | some file =>
    simp only [storeThumbnail]
    -- the checks stay closed, or every unification would run them
    generalize validateThumbnail file = checked
    refine owns_sync_bind fun _ _ => owns_sync_bind fun path hpath => ?_
    exact owns_await_bind ⟨id, hid, _, _, hpath⟩ fun _ => ProgE.issuesAfter_pure _

/-- The thumbnail is stored under a key of the id. -/
theorem storeThumbnail_path {id path : String} {thumbnailFile : Option File} {l : ServiceLog}
    (h : (storeThumbnail r id thumbnailFile).run.Follows l (.pure (.ok (some path)))) :
    PathOf id path := by
  cases thumbnailFile with
  | none => exact absurd (Prog.Follows.of_pure h).2 (by rintro ⟨⟩)
  | some file =>
    rcases ProgE.follows_of_bind h with ⟨e, -, hr⟩ | ⟨_, _, _, -, -, h⟩
    · exact absurd hr (by simp)
    rcases ProgE.follows_of_bind h with ⟨e, -, hr⟩ | ⟨p, _, _, -, hp, h⟩
    · exact absurd hr (by simp)
    rcases ProgE.follows_of_bind h with ⟨e, -, hr⟩ | ⟨_, _, _, -, -, h⟩
    · exact absurd hr (by simp)
    obtain rfl : p = path := by
      simpa using Except.ok.inj (Prog.pure.inj (Prog.Follows.of_pure h).2).symm
    exact ⟨_, _, follows_sync hp⟩

theorem deleteQuietly_owns {path : String} (h : ∃ id, Drew log id ∧ PathOf id path) :
    Owns r log (deleteQuietly path) :=
  owns_quietly (Or.inl h)

theorem saveMedia_owns {media : Media} (hid : Drew log media.id)
    (hpath : ∀ path, media.RefersTo path → PathOf media.id path) :
    Owns r log (saveMedia r media) := by
  have hsave : Own r log (.saveMedia r media) := ⟨rfl, hid, hpath⟩
  refine ProgE.IssuesAfter.tryCatch (owns_await hsave) fun e l _ => ?_
  have hdelete (l : ServiceLog) {path : String} (h : media.RefersTo path) :
      Owns r (log ++ l) (deleteQuietly path) :=
    deleteQuietly_owns ⟨media.id, hid.append l, hpath path h⟩
  refine ProgE.IssuesAfter.bind ((hdelete l (Or.inl rfl)).bind fun _ l' _ => ?_)
    fun _ _ _ => ProgE.issuesAfter_throw _
  split
  · next path hthumb =>
    rw [List.append_assoc]
    exact hdelete _ (Or.inr (Option.filter_eq_some_iff.mp hthumb).1)
  · exact ProgE.issuesAfter_pure _

theorem storeNew_owns (env : Env) (file : File) (context : MediaContext)
    (thumbnailFile : Option File) (sharedWith : Option (List String)) :
    Owns r log (storeNew env r file context thumbnailFile sharedWith) := by
  refine owns_await_bind trivial fun id => owns_sync_bind fun path hpath => ?_
  have hid : Drew (log ++ [⟨.randomUUID, .ok id⟩]) id :=
    List.mem_append_right _ (List.mem_singleton_self _)
  refine owns_await_bind ⟨id, hid, _, _, hpath⟩ fun _ => ?_
  refine (storeThumbnail_owns (hid.append _) thumbnailFile).bind fun thumb l₃ h₃ => ?_
  refine ProgE.IssuesAfter.bind (owns_of_touches (computeExpiresAt_touches env context) (by decide))
    fun expiresAt l₄ _ => ?_
  refine ProgE.IssuesAfter.bind (saveMedia_owns ?_ ?_) fun _ _ _ => ProgE.issuesAfter_pure _
  · exact ((hid.append _).append l₃).append l₄
  · rintro p (rfl | hp)
    · exact ⟨_, _, hpath⟩
    · obtain rfl : thumb = some p := hp
      exact storeThumbnail_path h₃

theorem uploadHeld_owns (env : Env) (file : File) (context : MediaContext)
    (thumbnailFile : Option File) (sharedWith : Option (List String)) :
    Owns r log (uploadHeld env r file context thumbnailFile sharedWith) := by
  refine (owns_of_touches (authorizeGroupIconUpload_touches env context r) (by decide)).bind
    fun _ l₁ _ => (enforceQuota_owns _).bind fun _ l₂ _ =>
    (owns_of_touches (validateFile_touches env file context) (by decide)).bind fun _ l₃ _ =>
    (findDuplicate_owns _).bind fun existing l₄ _ => ?_
  cases existing with
  | some existing =>
    exact (mergeSharedWith_owns existing sharedWith).bind fun _ _ _ =>
      buildUploadResponse_owns env existing
  | none =>
    exact (storeNew_owns env file context thumbnailFile sharedWith).bind fun media _ _ =>
      owns_await_bind ⟨_, _, rfl⟩ fun _ => (recordUpload_owns _).bind fun _ _ _ =>
        buildUploadResponse_owns env media

theorem upload_owns (env : Env) (file : File) (context : MediaContext)
    (thumbnailFile : Option File) (sharedWith : Option (List String)) :
    Owns r log (upload env r file context thumbnailFile sharedWith) :=
  acquireSemaphore_owns.bind fun _ _ _ =>
    (uploadHeld_owns env file context thumbnailFile sharedWith).ensuring fun _ =>
      releaseSemaphore_owns

/-! Reads, shares and deletes -/

theorem findActive_found {id : String} {media : Media} {l : ServiceLog}
    (h : (findActive id r).run.Follows l (.pure (.ok media))) : Found l media := by
  rcases ProgE.follows_of_bind h with ⟨e, -, hr⟩ | ⟨found, l₁, l₂, rfl, h₁, h₂⟩
  · exact absurd hr (by simp)
  cases found with
  | none => exact absurd (Prog.Follows.of_pure h₂).2 (by rintro ⟨⟩)
  | some m =>
    obtain rfl : media = m := Except.ok.inj (Prog.pure.inj (Prog.Follows.of_pure h₂).2)
    refine ⟨r, id, List.mem_append_left _ ?_⟩
    rw [follows_await h₁]
    exact List.mem_singleton_self _

theorem findActive_owns (id : String) : Owns r log (findActive id r) :=
  owns_of_touches (findActive_touches id r) (by decide)

theorem findReadable_owns (id : String) : Owns r log (findReadable id r) :=
  owns_of_touches (findReadable_touches id r) (by decide)

theorem getBlob_owns (env : Env) (id : String) : Owns r log (getBlob env id r) := by
  refine (findReadable_owns id).bind fun media l₁ _ => owns_await_bind trivial fun now => ?_
  split
  · exact owns_await_bind trivial fun _ => ProgE.issuesAfter_pure _
  · exact owns_await_bind trivial fun _ => owns_await_bind rfl fun _ =>
      ProgE.issuesAfter_pure _

theorem streamBlob_owns (id : String) : Owns r log (streamBlob id r) :=
  (findReadable_owns id).bind fun _ _ _ => owns_await_bind trivial fun _ =>
    ProgE.issuesAfter_pure _

theorem streamThumbnail_owns (id : String) : Owns r log (streamThumbnail id r) := by
  refine (findReadable_owns id).bind fun media l₁ _ => ?_
  split
  · exact ProgE.issuesAfter_pure _
  · exact owns_await_bind trivial fun _ => ProgE.issuesAfter_pure _

theorem share_owns (id : String) (userIdsToAdd : List String) :
    Owns r log (share id r userIdsToAdd) := by
  refine (findActive_owns id).bind fun media l₁ _ => owns_sync_bind fun _ _ => ?_
  dsimp only
  split
  · exact ProgE.issuesAfter_pure _
  · exact owns_await_bind rfl fun _ => owns_await_bind trivial fun _ =>
      ProgE.issuesAfter_pure _

theorem removeDeleted_owns {id : String} {media : Media} (hf : Found log media)
    (ho : media.ownerId = r) : Owns r log (removeDeleted id r media) := by
  have hdelete (l : ServiceLog) {path : String} (h : media.RefersTo path) :
      Owns r (log ++ l) (await (.deleteObject path)) :=
    owns_await (Or.inr ⟨media, hf.append l, ho, h⟩)
  have hrest (l : ServiceLog) :
      Owns r l (do await (.delMeta (metaKey id)); recordDelete r (.int media.blobSize)) :=
    owns_await_bind trivial fun _ => recordDelete_owns _
  have hfirst := @hdelete [] media.storagePath (Or.inl rfl)
  rw [List.append_nil] at hfirst
  refine hfirst.bind fun _ l₁ _ => ?_
  split
  · next path hthumb =>
    have hpath := (Option.filter_eq_some_iff.mp hthumb).1
    exact (hdelete l₁ (Or.inr hpath)).bind fun _ l₂ _ => hrest _
  · exact hrest _

theorem delete_owns (id : String) : Owns r log (delete id r) := by
  refine (findActive_owns id).bind fun media l₁ h₁ => owns_sync_bind fun _ howner => ?_
  have ho : media.ownerId = r := by
    have h := throwIf_eq_ok.mp howner
    simpa using h
  refine owns_await_bind rfl fun _ => removeDeleted_owns ?_ ho
  obtain ⟨user, i, hmem⟩ := findActive_found h₁
  exact ⟨user, i, List.mem_append_left _ (List.mem_append_right _ hmem)⟩

end Functions

/-! Requests -/

/-- The user for whom a call issues its commands. -/
def Call.user? : Call → Option String
  | .upload ownerId _ _ _ _ => some ownerId
  | .share _ requesterId _ | .delete _ requesterId | .getMetadata _ requesterId
  | .getBlob _ requesterId | .getThumbnail _ requesterId | .streamBlob _ requesterId
  | .streamThumbnail _ requesterId => some requesterId
  | .getUserQuota userId | .getUserMedia userId _ _ | .checkQuota userId _
  | .recordUpload userId _ | .recordDelete userId _ | .checkAndPublishQuotaAlert userId =>
    some userId
  | .resetDailyUploads => none

/-- A call issues only commands that are its user's. -/
theorem handle_owns (env : Env) {x : Call} {r : String} (hx : x.user? = some r)
    (log : ServiceLog) : Owns r log (handle env x) := by
  cases x <;> simp only [Call.user?, Option.some.injEq, reduceCtorEq] at hx <;> subst hx
  case upload file context thumbnailFile sharedWith =>
    exact (upload_owns env file context thumbnailFile sharedWith).map
  case share id _ uids => exact (share_owns id uids).map
  case delete id _ => exact (delete_owns id).map
  case getMetadata id _ => exact (owns_of_touches (getMetadata_touches id _) (by decide)).map
  case getBlob id _ => exact (getBlob_owns env id).map
  case getThumbnail id _ => exact (owns_of_touches (getThumbnail_touches env id _) (by decide)).map
  case streamBlob id _ => exact (streamBlob_owns id).map
  case streamThumbnail id _ => exact (streamThumbnail_owns id).map
  case getUserQuota userId =>
    exact ProgE.IssuesAfter.map (owns_await_bind trivial fun _ => ProgE.issuesAfter_pure _)
  case getUserMedia _ page limit =>
    exact (owns_of_touches (getUserMedia_touches _ page limit) (by decide)).map
  case checkQuota _ n => exact (checkQuota_owns n).map
  case recordUpload _ n => exact (recordUpload_owns n).map
  case recordDelete _ n => exact (recordDelete_owns n).map
  case checkAndPublishQuotaAlert => exact checkAndPublishQuotaAlert_owns.map

end WhisprMedia
