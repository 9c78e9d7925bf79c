import WhisprMedia.AccessTrail
import WhisprMedia.StoredMedia
import WhisprMedia.UploadValidation

/-! What is served is what was uploaded. The bytes and the type that a client is sent for a media are
those of the request that has uploaded it, which have passed the checks of their context. -/
namespace WhisprMedia
open Awaiting Keyed MediaService StorageService

/-! What a call stores -/

/-- The file has passed the three synchronous checks of its context. -/
structure Checked (file : File) (context : MediaContext) : Prop where
  size : enforceContextSizeLimit file.size context = .ok ()
  magic : validateMagicBytes (fileBuffer file) file.mimetype = .ok ()
  mime : enforceMime file.mimetype context = .ok ()

/-- The object is a file that the call has been given, under the key that its context has for the id. -/
inductive PutFor (x : Call) (id key : String) : StoredObject → Prop
  | file {ownerId : String} {file : File} {context : MediaContext} {thumbnailFile : Option File}
      {sharedWith : Option (List String)}
      (call : x = .upload ownerId file context thumbnailFile sharedWith)
      (path : buildPath (contextToStorageContext context) ownerId id = .ok key)
      (checked : Checked file context) : PutFor x id key (fileObject file)
  | thumbnail {ownerId : String} {file thumbnail : File} {context : MediaContext}
      {sharedWith : Option (List String)}
      (call : x = .upload ownerId file context (some thumbnail) sharedWith)
      (path : buildPath .thumbnails ownerId id = .ok key)
      (checked : validateThumbnail thumbnail = .ok ()) : PutFor x id key (fileObject thumbnail)

/-- The row describes what the call has been given. -/
structure MadeBy (x : Call) (media : Media) (ownerId : String) (file : File) (context : MediaContext)
    (thumbnailFile : Option File) : Prop where
  call : ∃ sharedWith, x = .upload ownerId file context thumbnailFile sharedWith
  contentType : media.contentType = file.mimetype
  blobSize : media.blobSize = file.size
  storagePath : buildPath (contextToStorageContext context) ownerId media.id = .ok media.storagePath
  thumbnailPath : ∀ path ∈ media.thumbnailPath, buildPath .thumbnails ownerId media.id = .ok path

/-- After the log, a command stores nothing but what the call has been given, for an id that was drawn
in it. -/
def Stores (x : Call) (log : ServiceLog) : Cmd → Prop
  | .putObject key object => ∃ id, Drew log id ∧ PutFor x id key object
  | .saveMedia _ media => Drew log media.id ∧
      ∃ ownerId file context thumbnailFile, MadeBy x media ownerId file context thumbnailFile
  | _ => True

/-- A command that stores no object and no row. -/
def Cmd.storesNothing : Cmd → Bool
  | .putObject _ _ | .saveMedia _ _ => false
  | _ => true

section Programs
variable {α β : Type} {env : Env} {x : Call} {log : ServiceLog} {ownerId : String} {file : File}
  {context : MediaContext} {thumbnailFile : Option File} {sharedWith : Option (List String)}

theorem Stores.of_nothing {c : Cmd} (h : c.storesNothing = true) : Stores x log c := by
  cases c with
  | putObject key object => exact absurd h (by simp [Cmd.storesNothing])
  | saveMedia user media => exact absurd h (by simp [Cmd.storesNothing])
  | _ => trivial

theorem storesNothing_of_touches {F : List Family} {y : Svc α} (hy : Touches F y)
    (hb : Family.bucket ∉ F) (hi : Family.mediaInsert ∉ F) :
    y.Issues fun c => c.storesNothing = true := by
  refine hy.issues.mono fun c hc => ?_
  cases c with
  | putObject key object => exact absurd hc hb
  | saveMedia user media => exact absurd hc hi
  | _ => rfl

theorem stores_nothing {y : Svc α} (hy : y.Issues fun c => c.storesNothing = true) :
    y.IssuesAfter (Stores x) log := hy.after fun _ _ h => .of_nothing h

theorem stores_of_touches {F : List Family} {y : Svc α} (hy : Touches F y) (hb : Family.bucket ∉ F)
    (hi : Family.mediaInsert ∉ F) : y.IssuesAfter (Stores x) log :=
  stores_nothing (storesNothing_of_touches hy hb hi)

theorem stores_await_bind {c : Cmd} {f : c.Value → Svc β} (h : Stores x log c)
    (hf : ∀ v, (f v).IssuesAfter (Stores x) (log ++ [⟨c, .ok v⟩])) :
    (await c >>= f).IssuesAfter (Stores x) log :=
  ProgE.IssuesAfter.bind (ProgE.issuesAfter_issue h) fun v _ hl => follows_await hl ▸ hf v

theorem stores_sync_bind {y : Except Err α} {f : α → Svc β}
    (hf : ∀ a, y = .ok a → (f a).IssuesAfter (Stores x) log) :
    (sync y >>= f).IssuesAfter (Stores x) log := by
  cases y with
  | ok a => exact hf a rfl
  | error e => trivial

/-! An upload -/

theorem storeThumbnail_stores {id : String} (hid : Drew log id)
    (hx : x = .upload ownerId file context thumbnailFile sharedWith) :
    (storeThumbnail ownerId id thumbnailFile).IssuesAfter (Stores x) log := by
  cases thumbnailFile with
  | none => exact ProgE.issuesAfter_pure _
  | some thumbnail =>
    simp only [storeThumbnail]
    -- the checks stay closed, or every unification would run them
    generalize hchecked : validateThumbnail thumbnail = checked
    refine stores_sync_bind fun _ hok => stores_sync_bind fun path hpath => ?_
    exact stores_await_bind ⟨id, hid, .thumbnail hx hpath (hchecked.trans hok)⟩ fun _ =>
      ProgE.issuesAfter_pure _

/-- The key of a stored thumbnail. -/
theorem storeThumbnail_key {id path : String} {l : ServiceLog}
    (h : (storeThumbnail ownerId id thumbnailFile).run.Follows l (.pure (.ok (some path)))) :
    buildPath .thumbnails ownerId id = .ok path := by
  cases thumbnailFile with
  | none => exact absurd (Prog.Follows.of_pure h).2 (by rintro ⟨⟩)
  | some thumbnail =>
    obtain ⟨_, _, _, -, -, h₁⟩ := ProgE.returned_of_bind h
    obtain ⟨p, _, _, -, hp, h₂⟩ := ProgE.returned_of_bind h₁
    obtain ⟨_, _, _, -, -, h₃⟩ := ProgE.returned_of_bind h₂
    obtain rfl : p = path := by
      simpa using Except.ok.inj (Prog.pure.inj (Prog.Follows.of_pure h₃).2).symm
    exact follows_sync hp

theorem saveMedia_stores_row {media : Media} (hid : Drew log media.id)
    (hrow : MadeBy x media ownerId file context thumbnailFile) :
    (saveMedia ownerId media).IssuesAfter (Stores x) log := by
  refine ProgE.IssuesAfter.tryCatch
    (ProgE.issuesAfter_issue ⟨hid, ownerId, file, context, thumbnailFile, hrow⟩) fun e l _ => ?_
  have hquiet (path : String) : (deleteQuietly path).Issues fun c => c.storesNothing = true :=
    ProgE.Issues.tryCatch ⟨rfl, fun _ => trivial⟩ fun _ => ProgE.issues_pure ()
  refine stores_nothing (ProgE.Issues.bind (ProgE.Issues.bind (hquiet _) fun _ => ?_) fun _ =>
    ProgE.issues_throw e)
  split
  · exact hquiet _
  · exact ProgE.issues_pure ()

theorem storeNew_stores_call (hx : x = .upload ownerId file context thumbnailFile sharedWith)
    (hchecked : Checked file context) :
    (storeNew env ownerId file context thumbnailFile sharedWith).IssuesAfter (Stores x) log := by
  refine stores_await_bind trivial fun id => stores_sync_bind fun path hpath => ?_
  have hid : Drew (log ++ [⟨.randomUUID, .ok id⟩]) id :=
    List.mem_append_right _ (List.mem_singleton_self _)
  refine stores_await_bind ⟨id, hid, .file hx hpath hchecked⟩ fun _ => ?_
  refine (storeThumbnail_stores (hid.append _) hx).bind fun thumb l₃ h₃ => ?_
  refine ProgE.IssuesAfter.bind (stores_of_touches (computeExpiresAt_touches env context) (by decide)
    (by decide)) fun expiresAt l₄ _ => ?_
  have hmade : MadeBy x (newMedia id ownerId file context path thumb expiresAt sharedWith) ownerId file
      context thumbnailFile := by
    refine ⟨⟨_, hx⟩, rfl, rfl, hpath, fun p hp => ?_⟩
    obtain rfl : thumb = some p := hp
    exact storeThumbnail_key h₃
  exact ProgE.IssuesAfter.bind (saveMedia_stores_row (((hid.append _).append l₃).append l₄) hmade)
    fun _ _ _ => ProgE.issuesAfter_pure _

theorem uploadHeld_stores_call (hx : x = .upload ownerId file context thumbnailFile sharedWith) :
    (uploadHeld env ownerId file context thumbnailFile sharedWith).IssuesAfter (Stores x) log := by
  refine ProgE.IssuesAfter.bind (stores_of_touches (authorizeGroupIconUpload_touches env context ownerId)
    (by decide) (by decide)) fun _ l₁ _ => ?_
  refine ProgE.IssuesAfter.bind (stores_of_touches (QuotaService.enforceQuota_touches ownerId _)
    (by decide) (by decide)) fun _ l₂ _ => ?_
  refine ProgE.IssuesAfter.bind (stores_of_touches (validateFile_touches env file context)
    (by decide) (by decide)) fun _ l₃ h₃ => ?_
  obtain ⟨hsize, hmagic, hmime⟩ := validateFile_follows h₃
  refine ProgE.IssuesAfter.bind (stores_of_touches (findDuplicate_touches ownerId _)
    (by decide) (by decide)) fun existing l₄ _ => ?_
  cases existing with
  | some existing =>
    refine ProgE.IssuesAfter.bind (stores_of_touches (mergeSharedWith_touches ownerId existing
      sharedWith) (by decide) (by decide)) fun _ _ _ => ?_
    exact stores_of_touches (buildUploadResponse_touches env existing) (by decide) (by decide)
  | none =>
    refine (storeNew_stores_call hx ⟨hsize, hmagic, hmime⟩).bind fun media _ _ =>
      stores_await_bind trivial fun _ => ?_
    refine ProgE.IssuesAfter.bind (stores_of_touches (QuotaService.recordUpload_touches ownerId _)
      (by decide) (by decide)) fun _ _ _ => ?_
    exact stores_of_touches (buildUploadResponse_touches env media) (by decide) (by decide)

/-! Every call -/

theorem removeDeleted_storesNothing (id requesterId : String) (media : Media) :
    (removeDeleted id requesterId media).Issues fun c => c.storesNothing = true := by
  have hrest : ProgE.Issues (fun c => c.storesNothing = true)
      (do await (.delMeta (metaKey id)); QuotaService.recordDelete requesterId (.int media.blobSize)) :=
    ProgE.Issues.bind ⟨rfl, fun _ => trivial⟩ fun _ =>
      storesNothing_of_touches (QuotaService.recordDelete_touches requesterId _) (by decide) (by decide)
  refine ProgE.Issues.bind ⟨rfl, fun _ => trivial⟩ fun _ => ?_
  split
  · exact ProgE.Issues.bind ⟨rfl, fun _ => trivial⟩ fun _ => hrest
  · exact hrest

theorem findReadable_storesNothing {id requesterId : String} {f : Media → Svc α}
    (hf : ∀ media, (f media).Issues fun c => c.storesNothing = true) :
    (findReadable id requesterId >>= f).Issues fun c => c.storesNothing = true :=
  ProgE.Issues.bind (storesNothing_of_touches (findReadable_touches id requesterId) (by decide)
    (by decide)) hf

theorem handle_stores_call (x : Call) : (handle env x).IssuesAfter (Stores x) log := by
  cases x with
  | upload ownerId file context thumbnailFile sharedWith =>
    refine ProgE.IssuesAfter.map (ProgE.IssuesAfter.bind (stores_of_touches
      (acquireSemaphore_touches ownerId) (by decide) (by decide)) fun _ _ _ => ?_)
    exact (uploadHeld_stores_call rfl).ensuring fun _ =>
      stores_of_touches (releaseSemaphore_touches ownerId) (by decide) (by decide)
  | share id requesterId userIdsToAdd =>
    exact (stores_of_touches (share_touches id requesterId userIdsToAdd) (by decide) (by decide)).map
  | delete id requesterId =>
    refine stores_nothing (ProgE.Issues.map (ProgE.Issues.bind (storesNothing_of_touches
      (findActive_touches id requesterId) (by decide) (by decide)) fun media => ?_))
    exact ProgE.Issues.bind trivial fun _ => ProgE.Issues.bind ⟨rfl, fun _ => trivial⟩ fun _ =>
      removeDeleted_storesNothing id requesterId media
  | getMetadata id requesterId =>
    exact (stores_of_touches (getMetadata_touches id requesterId) (by decide) (by decide)).map
  | getBlob id requesterId =>
    exact (stores_of_touches (getBlob_touches env id requesterId) (by decide) (by decide)).map
  | getThumbnail id requesterId =>
    exact (stores_of_touches (getThumbnail_touches env id requesterId) (by decide) (by decide)).map
  | streamBlob id requesterId =>
    exact stores_nothing (ProgE.Issues.map (findReadable_storesNothing fun _ =>
      ProgE.Issues.bind ⟨rfl, fun _ => trivial⟩ fun _ => ProgE.issues_pure _))
  | streamThumbnail id requesterId =>
    refine stores_nothing (ProgE.Issues.map (findReadable_storesNothing fun media => ?_))
    split
    · exact ProgE.issues_pure _
    · exact ProgE.Issues.bind ⟨rfl, fun _ => trivial⟩ fun _ => ProgE.issues_pure _
  | getUserQuota userId =>
    exact (stores_of_touches (getUserQuota_touches userId) (by decide) (by decide)).map
  | getUserMedia userId page limit =>
    exact (stores_of_touches (getUserMedia_touches userId page limit) (by decide) (by decide)).map
  | checkQuota userId blobSize =>
    exact (stores_of_touches (QuotaService.checkQuota_touches userId blobSize) (by decide)
      (by decide)).map
  | recordUpload userId blobSize =>
    exact (stores_of_touches (QuotaService.recordUpload_touches userId blobSize) (by decide)
      (by decide)).map
  | recordDelete userId blobSize =>
    exact (stores_of_touches (QuotaService.recordDelete_touches userId blobSize) (by decide)
      (by decide)).map
  | resetDailyUploads =>
    exact (stores_of_touches QuotaService.resetDailyUploads_touches (by decide) (by decide)).map
  | checkAndPublishQuotaAlert userId =>
    exact (stores_of_touches (QuotaService.checkAndPublishQuotaAlert_touches userId) (by decide)
      (by decide)).map

/-- The call of the service that a task makes. -/
def Task.Makes (t : Task) (x : Call) : Prop :=
  t = .call x ∨ ∃ req, t = .request req ∧ MediaController.route req = .ok x

theorem Task.Makes.unique {t : Task} {x y : Call} (h : t.Makes x) (h' : t.Makes y) : x = y := by
  rcases h with rfl | ⟨req, rfl, hx⟩ <;> rcases h' with h' | ⟨req', h', hy⟩
  · exact Task.call.inj h'
  · exact absurd h' (by simp)
  · exact absurd h' (by simp)
  · obtain rfl := Task.request.inj h'
    exact Except.ok.inj (hx.symm.trans hy)

theorem body_stores (fault : Cmd → World → Option Fault) (t : Task) :
    ((api env fault).body t).IssuesAfter (fun log c => ∃ x, t.Makes x ∧ Stores x log c) log := by
  cases t with
  | call x => exact (handle_stores_call x).mono fun _ _ h => ⟨x, Or.inl rfl, h⟩
  | request req =>
    show (MediaController.handle env req).IssuesAfter _ log
    unfold MediaController.handle
    refine ProgE.IssuesAfter.bind trivial fun x l hl => ?_
    have hroute := follows_sync hl
    refine ProgE.IssuesAfter.bind ?_ fun _ _ _ => trivial
    exact (handle_stores_call x).mono fun _ _ h => ⟨x, Or.inr ⟨req, rfl, hroute⟩, h⟩

end Programs

/-! What the stores hold -/

/-- A row without what may change. -/
def Media.stored (m : Media) : Media :=
  { m with isActive := true, sharedWith := none, signedUrlExpiresAt := none }

theorem Media.Becomes.stored_eq {m m' : Media} (h : m.Becomes m') : m'.stored = m.stored := by
  rw [h.eq]
  rfl

/-- An object that is there after a command was there before, or the command has put it. -/
theorem bucket_before_exec {env : Env} {c : Cmd} {w : World} {key : String} {object : StoredObject}
    (h : (env.exec c w).2.bucket key = some object) :
    w.bucket key = some object ∨ c = .putObject key object := by
  by_cases hf : c.family = .bucket
  · cases c <;> simp only [Cmd.family, reduceCtorEq] at hf
    case putObject key' object' =>
      have hput : Function.update w.bucket key' (some object') key = some object := h
      by_cases hk : key = key'
      · rw [hk, Function.update_self] at hput
        rw [hk, Option.some.inj hput]
        exact Or.inr rfl
      · rw [Function.update_of_ne hk] at hput
        exact Or.inl hput
    case deleteObject key' => exact Or.inl (of_update_none h)
    case getObject key' =>
      simp only [Env.exec] at h
      split at h <;> exact Or.inl h
  · rw [exec_bucket hf] at h
    exact Or.inl h

section Origins
variable (env : Env) (fault : Cmd → World → Option Fault)

/-- Objects are put. -/
def objectOrigin : Origin (api env fault) (String × StoredObject) where
  holds w b := w.bucket b.1 = some b.2
  enters e b := e.1 = .putObject b.1 b.2
  exec c w b h := by
    have h' : (env.execFaulty fault c w).2.bucket b.1 = some b.2 := h
    have hworld : (env.execFaulty fault c w).2 = w ∨
        (env.execFaulty fault c w).2 = (env.exec c w).2 := execFaulty_world c w
    rcases hworld with heq | heq <;> rw [heq] at h'
    · exact Or.inl h'
    · exact bucket_before_exec h'
  act a w b h := by
    have h' : (a.apply w).bucket b.1 = some b.2 := h
    rwa [act_bucket] at h'

/-- Rows are inserted. -/
def rowOrigin : Origin (api env fault) Media where
  holds w b := ∃ m, w.media.get m.id = some m ∧ m.stored = b
  enters e b := ∃ user media now m, e.1 = .saveMedia user media ∧ env.mediaIn now media = some m ∧
    m.stored = b
  exec c w b h := by
    have h' : ∃ m, (env.execFaulty fault c w).2.media.get m.id = some m ∧ m.stored = b := h
    have hworld : (env.execFaulty fault c w).2 = w ∨
        (env.execFaulty fault c w).2 = (env.exec c w).2 := execFaulty_world c w
    rcases hworld with heq | heq <;> rw [heq] at h'
    · exact Or.inl h'
    · obtain ⟨m', hm', rfl⟩ := h'
      rcases media_before_exec hm' with ⟨m, hm, hb⟩ | ⟨user, media, hc, -, hin, -, -, -⟩
      · exact Or.inl ⟨m, by rwa [← hb.id_eq], hb.stored_eq.symm⟩
      · exact Or.inr ⟨user, media, w.now, m', hc, hin, rfl⟩
  act a w b h := by
    have h' : ∃ m, (a.apply w).media.get m.id = some m ∧ m.stored = b := h
    rwa [act_media] at h'

/-- The id that a command has drawn. -/
def draws : Event Cmd Cmd.Reply → Multiset String
  | ⟨.randomUUID, .ok id⟩ => {id}
  | _ => 0

/-- The ids that have been drawn so far. -/
def drawnIds (w : World) : Multiset String := ↑((List.range w.drawn).map env.randomUUID)

variable {env} in
theorem drawnIds_mono {w w' : World} (h : w.drawn ≤ w'.drawn) : drawnIds env w ≤ drawnIds env w' :=
  Multiset.coe_le.mpr ((List.range_sublist.mpr h).map _).subperm

/-- Ids are drawn one after the other; the first access to a quota draws some as well. -/
def drawLedger : Ledger (api env fault) (Multiset String) (· ≤ ·) where
  holds := drawnIds env
  entry := draws
  exec c w := by
    have hother {r : c.Reply} {w' : World} (h : draws ⟨c, r⟩ = 0) (hw : w.drawn ≤ w'.drawn) :
        drawnIds env w + draws ⟨c, r⟩ ≤ drawnIds env w' := by
      rw [h, add_zero]
      exact drawnIds_mono hw
    show drawnIds env w + draws ⟨c, (env.execFaulty fault c w).1⟩ ≤
      drawnIds env (env.execFaulty fault c w).2
    unfold Env.execFaulty
    split
    · cases c with
      | randomUUID =>
        have hdraw : (drawnIds env w : Multiset String) + {env.randomUUID w.drawn} =
            drawnIds env { w with drawn := w.drawn + 1 } := by
          rw [drawnIds, drawnIds, List.range_succ, List.map_append, ← Multiset.coe_add]
          rfl
        exact hdraw.le
      | _ => exact hother rfl drawn_le_exec
    · next f _ =>
      have hnone : draws ⟨c, .error f.message⟩ = 0 := by cases c <;> rfl
      cases f.applied with
      | true => exact hother hnone drawn_le_exec
      | false => exact hother hnone le_rfl
  act a w := by
    show drawnIds env w ≤ drawnIds env (a.apply w)
    rw [drawnIds, drawnIds, act_drawn]

end Origins

section Runs
variable {env : Env} {fault : Cmd → World → Option Fault} {p q : ApiPool}
  {ok : ApiPool → Label Task Act → Prop}

/-- What a thread has stored is of its call. -/
theorem stores_of_mem (hq : (api env fault).Runs ok ⟨World.empty, []⟩ q) {t : ApiThread}
    (ht : t ∈ q.threads) {e : Event Cmd Cmd.Reply} (he : e ∈ t.log) :
    ∃ x log, t.call.Makes x ∧ log ⊆ t.log ∧ Stores x log e.1 := by
  obtain ⟨l₁, l₂, hlog⟩ := List.append_of_mem he
  have hfollows := hq.follows (fun t ht => absurd ht List.not_mem_nil) t ht
  rw [hlog] at hfollows
  obtain ⟨x, hx, hstores⟩ := (body_stores fault t.call).of_split hfollows
  exact ⟨x, [] ++ l₁, hx, fun e he => hlog ▸ List.mem_append_left _ he, hstores⟩

/-- Drawn ids are of the generator. -/
theorem drew_eq (hq : (api env fault).Runs ok ⟨World.empty, []⟩ q) {t : ApiThread}
    (ht : t ∈ q.threads) {id : String} (hid : Drew t.log id) : ∃ n, id = env.randomUUID n := by
  have hle := Ledger.balance (L := drawLedger env fault) additive_le hq
  have hmem : id ∈ (drawLedger env fault).tally q.threads :=
    Ledger.mem_tally.mpr ⟨t, ht, _, hid, Multiset.mem_singleton_self id⟩
  have hdrawn : id ∈ drawnIds env q.world :=
    Multiset.mem_of_le ((Multiset.le_add_left _ _).trans hle) hmem
  obtain ⟨n, -, rfl⟩ := List.mem_map.mp (Multiset.mem_coe.mp hdrawn)
  exact ⟨n, rfl⟩

/-- One id is drawn by one thread. -/
theorem drew_once (hq : (api env fault).Runs ok ⟨World.empty, []⟩ q)
    (hapart : env.DrawsApart q.world.drawn) {i j : ℕ} {t t' : ApiThread} (ht : q.threads[i]? = some t)
    (ht' : q.threads[j]? = some t') {id : String} (hid : Drew t.log id) (hid' : Drew t'.log id) :
    t = t' := by
  have hle := Ledger.balance (L := drawLedger env fault) additive_le hq
  have hnodup : (drawnIds env q.world).Nodup := by
    refine Multiset.coe_nodup.mpr (List.Nodup.map_on (fun m hm n hn heq => ?_) List.nodup_range)
    exact hapart m n (List.mem_range.mp hm) (List.mem_range.mp hn) heq
  have htally := Multiset.nodup_of_le ((Multiset.le_add_left _ _).trans hle) hnodup
  obtain rfl := Ledger.same_thread htally ht ht' hid hid' (Multiset.mem_singleton_self id)
    (Multiset.mem_singleton_self id)
  exact Option.some.inj (ht.symm.trans ht')

/-- An object under a key of a row is of the call that has made the row. -/
theorem object_of_row {p p' : ApiPool} (hp : (api env fault).Runs ok ⟨World.empty, []⟩ p)
    (hpq : (api env fault).Runs ok p q) (hp' : (api env fault).Runs ok ⟨World.empty, []⟩ p')
    (hpq' : (api env fault).Runs ok p' q) (hapart : env.DrawsApart q.world.drawn) {m : Media}
    (hm : p.world.media.get m.id = some m) {key : String} (hkey : m.RefersTo key)
    {object : StoredObject} (hobject : p'.world.bucket key = some object) :
    ∃ t ∈ q.threads, ∃ x, t.call.Makes x ∧ Drew t.log m.id ∧ PutFor x m.id key object ∧
      ∃ ownerId file context thumbnailFile, MadeBy x m ownerId file context thumbnailFile := by
  have hq := hp.trans hpq
  -- the thread that has inserted the row
  rcases (rowOrigin env fault).entered hp hpq ⟨m, hm, rfl⟩ with ⟨m₀, hm₀, -⟩ |
    ⟨i, t, ht, e, he, user, media, now, row, hsave, hin, hrow⟩
  · exact absurd hm₀ (by simp [World.empty])
  obtain ⟨x, log, hx, hsub, hstores⟩ := stores_of_mem hq (List.mem_of_getElem? ht) he
  rw [hsave] at hstores
  obtain ⟨hdrew, ownerId, file, context, thumbnailFile, hfor⟩ := hstores
  obtain ⟨n, hn⟩ := drew_eq hq (List.mem_of_getElem? ht) (hsub hdrew)
  -- the row has the id that was drawn
  obtain ⟨hid, -, -, hstored⟩ := mediaIn_eq hin
  have hrowid : row.id = media.id :=
    Option.some.inj (hid.symm.trans (hn ▸ env.randomUUID_canonical n))
  have hfields : m.id = media.id ∧ m.contentType = media.contentType ∧ m.blobSize = media.blobSize ∧
      m.storagePath = media.storagePath ∧ m.thumbnailPath = media.thumbnailPath := by
    have h₁ := congrArg Media.id hrow
    have h₂ := congrArg Media.contentType hrow
    have h₃ := congrArg Media.blobSize hrow
    have h₄ := congrArg Media.storagePath hrow
    have h₅ := congrArg Media.thumbnailPath hrow
    rw [hstored] at h₂ h₃ h₄ h₅
    exact ⟨h₁.symm.trans hrowid, h₂.symm, h₃.symm, h₄.symm, h₅.symm⟩
  obtain ⟨hid', hcontent, hsize, hpath, hthumb⟩ := hfields
  have hfor' : MadeBy x m ownerId file context thumbnailFile :=
    ⟨hfor.call, hcontent.trans hfor.contentType, hsize.trans hfor.blobSize,
      by rw [hid', hpath]; exact hfor.storagePath, by rw [hid', hthumb]; exact hfor.thumbnailPath⟩
  have hpathOf : PathOf m.id key := by
    rcases hkey with rfl | hkey
    · exact ⟨_, _, hfor'.storagePath⟩
    · exact ⟨_, _, hfor'.thumbnailPath key hkey⟩
  -- the thread that has put the object has drawn the same id
  rcases (objectOrigin env fault).entered hp' hpq' (b := (key, object)) hobject with h |
    ⟨j, t', ht', e', he', hput⟩
  · exact absurd h (by simp [objectOrigin, World.empty])
  obtain ⟨x', log', hx', hsub', hstores'⟩ := stores_of_mem hq (List.mem_of_getElem? ht') he'
  have hput : e'.1 = .putObject key object := hput
  rw [hput] at hstores'
  obtain ⟨id, hdrew', hfor''⟩ := hstores'
  have hidkey : PathOf id key := by
    cases hfor'' with
    | file _ hpath => exact ⟨_, _, hpath⟩
    | thumbnail _ hpath => exact ⟨_, _, hpath⟩
  obtain rfl := hidkey.id_eq hpathOf
  obtain rfl := drew_once hq hapart ht ht' (hid' ▸ hsub hdrew) (hsub' hdrew')
  obtain rfl := hx.unique hx'
  exact ⟨t, List.mem_of_getElem? ht, x, hx, hsub' hdrew', hfor'', ownerId, file, context,
    thumbnailFile, hfor'⟩

/-! Streams -/

/-- The call whose answer is a body. -/
theorem call_of_blob {x : Call} {l : ServiceLog} {file : StreamableFile}
    (h : (handle env x).run.Follows l (.pure (.ok (.blob file)))) :
    ∃ id r media bytes, x = .streamBlob id r ∧ file = ⟨bytes, media.contentType, some media.blobSize⟩ ∧
      ⟨.findMedia r id, .ok (some media)⟩ ∈ l ∧ ⟨.getObject media.storagePath, .ok bytes⟩ ∈ l := by
  cases x with
  | streamBlob id r =>
    obtain ⟨a, ha, hr⟩ := ProgE.follows_of_map h
    cases a with
    | error e => exact absurd hr (by simp [Except.map])
    | ok file' =>
      obtain rfl := Reply.blob.inj (Except.ok.inj hr)
      obtain ⟨media, l₁, l₂, rfl, h₁, h₂⟩ := ProgE.returned_of_bind ha
      obtain ⟨bytes, l₃, l₄, rfl, h₃, h₄⟩ := ProgE.returned_of_bind h₂
      obtain ⟨-, hfile⟩ := Prog.Follows.of_pure h₄
      refine ⟨id, r, media, bytes, rfl, Except.ok.inj (Prog.pure.inj hfile), ?_, ?_⟩
      · exact List.mem_append_left _ (findReadable_follows h₁ ▸ List.mem_cons_self)
      · rw [follows_await h₃]
        exact List.mem_append_right _ (List.mem_append_left _ List.mem_cons_self)
  | _ =>
    obtain ⟨a, -, hr⟩ := ProgE.follows_of_map h
    cases a <;> exact absurd hr (by simp [Except.map])

/-- The call whose answer is the body of a thumbnail. -/
theorem call_of_thumbnail {x : Call} {l : ServiceLog} {file : StreamableFile}
    (h : (handle env x).run.Follows l (.pure (.ok (.thumbnail (some file))))) :
    ∃ id r, ∃ media : Media, ∃ path bytes, x = .streamThumbnail id r ∧
      file = ⟨bytes, "image/*", none⟩ ∧ media.thumbnailPath = some path ∧
      ⟨.findMedia r id, .ok (some media)⟩ ∈ l ∧ ⟨.getObject path, .ok bytes⟩ ∈ l := by
  cases x with
  | streamThumbnail id r =>
    obtain ⟨a, ha, hr⟩ := ProgE.follows_of_map h
    cases a with
    | error e => exact absurd hr (by simp [Except.map])
    | ok file' =>
      obtain rfl := Reply.thumbnail.inj (Except.ok.inj hr)
      obtain ⟨media, l₁, l₂, rfl, h₁, h₂⟩ := ProgE.returned_of_bind ha
      split at h₂
      · exact absurd (Prog.Follows.of_pure h₂).2 (by rintro ⟨⟩)
      · next path hpath =>
        obtain ⟨bytes, l₃, l₄, rfl, h₃, h₄⟩ := ProgE.returned_of_bind h₂
        obtain ⟨-, hfile⟩ := Prog.Follows.of_pure h₄
        refine ⟨id, r, media, path, bytes, rfl, ?_, (Option.filter_eq_some_iff.mp hpath).1, ?_, ?_⟩
        · exact Option.some.inj (Except.ok.inj (Prog.pure.inj hfile))
        · exact List.mem_append_left _ (findReadable_follows h₁ ▸ List.mem_cons_self)
        · rw [follows_await h₃]
          exact List.mem_append_right _ (List.mem_append_left _ List.mem_cons_self)
  | _ =>
    obtain ⟨a, -, hr⟩ := ProgE.follows_of_map h
    cases a <;> exact absurd hr (by simp [Except.map])

/-- The call of an answered request was answered so. -/
theorem handle_follows (hq : (api env fault).Runs ok ⟨World.empty, []⟩ q) {t : ApiThread}
    (ht : t ∈ q.threads) {request : Request} (hcall : t.call = .request request) {rep : Reply}
    (hout : t.outcome = some (.ok rep)) : ∃ x, MediaController.route request = .ok x ∧
      (handle env x).run.Follows t.log (.pure (.ok rep)) := by
  have hfollows := hq.follows (fun t ht => absurd ht List.not_mem_nil) t ht
  rw [hcall, Thread.rest_of_outcome hout] at hfollows
  have hfollows : (MediaController.handle env request).run.Follows t.log (.pure (.ok rep)) := hfollows
  obtain ⟨x, l₁, l₂, hlog, h₁, h₂⟩ := ProgE.returned_of_bind hfollows
  obtain ⟨reply, l₃, l₄, rfl, h₃, h₄⟩ := ProgE.returned_of_bind h₂
  obtain rfl := respond_eq_ok (follows_sync h₄)
  obtain ⟨rfl, -⟩ := Prog.Follows.of_pure h₁
  obtain ⟨rfl, -⟩ := Prog.Follows.of_pure h₄
  rw [List.nil_append, List.append_nil] at hlog
  exact ⟨x, follows_sync h₁, hlog ▸ h₃⟩

/-- A command that was answered with a value has served it at a moment of the run. -/
theorem served_at (hq : (api env fault).Runs ok ⟨World.empty, []⟩ q) {t : ApiThread}
    (ht : t ∈ q.threads) {c : Cmd} {v : c.Value} (he : (⟨c, .ok v⟩ : Event Cmd Cmd.Reply) ∈ t.log) :
    ∃ p, (api env fault).Runs ok ⟨World.empty, []⟩ p ∧ (api env fault).Runs ok p q ∧
      (env.exec c p.world).1 = .ok v := by
  obtain ⟨i, hi, hget⟩ := List.getElem_of_mem ht
  have hat : q.threads[i]? = some t := by rw [List.getElem?_eq_getElem hi, hget]
  obtain ⟨p, hp, hpq, -, hexec⟩ := hq.moment hat he
  have hserved : (env.execFaulty fault c p.world).1 = .ok v := hexec
  exact ⟨p, hp, hpq, by rw [← execFaulty_ok hserved, hserved]⟩

/-- The object that was read under a key of a row that was found. -/
theorem read_of_row (hq : (api env fault).Runs ok ⟨World.empty, []⟩ q)
    (hapart : env.DrawsApart q.world.drawn) {t : ApiThread} (ht : t ∈ q.threads) {r id key : String}
    {media : Media} {bytes : Readable} (hkey : media.RefersTo key)
    (hfind : ⟨.findMedia r id, .ok (some media)⟩ ∈ t.log)
    (hget : ⟨.getObject key, .ok bytes⟩ ∈ t.log) :
    env.uuidIn id = some media.id ∧ ∃ object : StoredObject, bytes.bytes = object.body ∧
      ∃ t ∈ q.threads, ∃ x, t.call.Makes x ∧ Drew t.log media.id ∧ PutFor x media.id key object ∧
        ∃ ownerId file context thumbnailFile, MadeBy x media ownerId file context thumbnailFile := by
  obtain ⟨p, hp, hpq, hfound⟩ := served_at hq ht hfind
  obtain ⟨-, u, -, hid, hm, -, -⟩ := exec_findMedia (Prod.mk.eta.symm) hfound
  obtain ⟨p', hp', hpq', hread⟩ := served_at hq ht hget
  simp only [Env.exec] at hread
  split at hread
  · next object hobject =>
    obtain rfl := Except.ok.inj hread
    exact ⟨hid, object, rfl, object_of_row hp hpq hp' hpq' hapart hm hkey hobject⟩
  · exact absurd hread (by simp)

end Runs

/-! Bodies -/

/-- The request has uploaded the file and the thumbnail as the media of the id. -/
def UploadedBy (t : HttpThread) (id : String) (file : File) (context : MediaContext)
    (thumbnailFile : Option File) : Prop :=
  (⟨.inl .randomUUID, .ok id⟩ : HttpEvent) ∈ t.log ∧ ∃ req dto, t.call = .request req ∧
    req.endpoint = .upload dto ∧ dto.file = some file ∧ dto.context.getD .MESSAGE = context ∧
    dto.thumbnail = thumbnailFile

/-- The body is the file, under its own type, which the context allows. -/
structure SendsFile (body : StreamableFile) (file : File) (context : MediaContext) : Prop where
  bytes : body.stream.bytes = (fileObject file).body
  type : body.type = file.mimetype
  length : body.length = some file.size
  allowed : file.mimetype ∈ CONTEXT_MIME_ALLOWLIST context
  valid : MemoryStored file → ValidBlob context (fileObject file)

/-- The body is the thumbnail, as an image. -/
structure SendsThumbnail (body : StreamableFile) (thumbnail : File) : Prop where
  bytes : body.stream.bytes = (fileObject thumbnail).body
  type : body.type = "image/*"
  valid : MemoryStored thumbnail → ValidThumbnail (fileObject thumbnail)

theorem uploadedBy_of_makes {t : ApiThread} {t' : HttpThread} {x : Call} {id ownerId : String}
    {file : File} {context : MediaContext} {thumbnailFile : Option File}
    {sharedWith : Option (List String)} (hlog : t.log = innerLog t'.log)
    (hcalls : (∃ x, t'.call.job? = some x ∧ t.call = .call x) ∨ ∃ req request, t'.call = .request req ∧
      t.call = .request request ∧ request.endpoint = req.endpoint ∧ EnteredAs t' request)
    (hx : t.call.Makes x) (hupload : x = .upload ownerId file context thumbnailFile sharedWith)
    (hdrew : Drew t.log id) : UploadedBy t' id file context thumbnailFile := by
  refine ⟨mem_innerLog.mp (hlog ▸ hdrew), ?_⟩
  subst hupload
  rcases hcalls with ⟨y, hjob, hcall⟩ | ⟨req, ⟨u, endpoint⟩, hcall', hcall, hendpoint, -⟩
  · -- jobs upload nothing
    obtain rfl := hx.unique (Or.inl hcall)
    cases hc : t'.call with
    | request req =>
      rw [hc] at hjob
      exact absurd hjob (by simp [HttpCall.job?])
    | resetDailyUploads =>
      rw [hc] at hjob
      exact absurd (Option.some.inj hjob) (by simp)
    | checkAndPublishQuotaAlert userId =>
      rw [hc] at hjob
      exact absurd (Option.some.inj hjob) (by simp)
  · rcases hx with hx | ⟨request, hx, hroute⟩
    · exact absurd (hcall.symm.trans hx) (by simp)
    · obtain rfl := Task.request.inj (hcall.symm.trans hx)
      have hc : endpoint.Calls u (.upload ownerId file context thumbnailFile sharedWith) :=
        route_calls hroute
      cases hc with
      | upload hfile => exact ⟨req, _, hcall', hendpoint.symm, hfile, rfl, rfl⟩

/-- Under the key of the media itself stands the file of the upload. -/
theorem PutFor.file_of {id key ownerId o : String} {file : File} {context : MediaContext}
    {thumbnailFile : Option File} {sharedWith : Option (List String)} {object : StoredObject}
    (h : PutFor (.upload ownerId file context thumbnailFile sharedWith) id key object)
    (hkey : buildPath (contextToStorageContext context) o id = .ok key) :
    object = fileObject file ∧ Checked file context := by
  cases h with
  | file hcall _ hchecked =>
    obtain ⟨-, rfl, rfl, -, -⟩ := Call.upload.inj hcall
    exact ⟨rfl, hchecked⟩
  | thumbnail _ hpath _ =>
    exact absurd rfl (buildPath_thumbnails_ne (contextToStorageContext_ne context) hkey hpath)

/-- Under the key of its thumbnail stands the thumbnail of the upload. -/
theorem PutFor.thumbnail_of {id key ownerId o : String} {file : File} {context : MediaContext}
    {thumbnailFile : Option File} {sharedWith : Option (List String)} {object : StoredObject}
    (h : PutFor (.upload ownerId file context thumbnailFile sharedWith) id key object)
    (hkey : buildPath .thumbnails o id = .ok key) : ∃ thumbnail, thumbnailFile = some thumbnail ∧
      object = fileObject thumbnail ∧ validateThumbnail thumbnail = .ok () := by
  cases h with
  | @file _ _ context' _ _ _ hpath _ =>
    exact absurd rfl (buildPath_thumbnails_ne (contextToStorageContext_ne context') hpath hkey)
  | thumbnail hcall _ hchecked =>
    obtain ⟨-, -, -, rfl, -⟩ := Call.upload.inj hcall
    exact ⟨_, rfl, rfl, hchecked⟩

/-- Whatever fails and whatever runs beside: a client who is sent the body of a media or of its thumbnail
is sent what the request has uploaded whose media it is, with the type of its upload. -/
theorem served_as_uploaded {KeyObject : Type} (env : Env) (http : HttpEnv KeyObject)
    (fault : Cmd → World → Option Fault) (q : HttpPool KeyObject)
    (hq : (httpService env http fault).Runs (fun _ _ => True) ⟨.start http, []⟩ q)
    (hapart : env.DrawsApart q.world.service.drawn) (t : HttpThread) (ht : t ∈ q.threads)
    (req : HttpRequest) (hcall : t.call = .request req) (rep : Reply)
    (hrep : t.outcome = some (.ok rep)) :
    (∀ body, rep = .blob body → ∃ id stream mediaId, req.endpoint = .getBlobUrl id stream ∧
      env.uuidIn id = some mediaId ∧ ∃ t' ∈ q.threads, ∃ file context thumbnailFile,
        UploadedBy t' mediaId file context thumbnailFile ∧ SendsFile body file context) ∧
    ∀ body, rep = .thumbnail (some body) → ∃ id stream mediaId,
      req.endpoint = .getThumbnailUrl id stream ∧ env.uuidIn id = some mediaId ∧
      ∃ t' ∈ q.threads, ∃ file context thumbnail,
        UploadedBy t' mediaId file context (some thumbnail) ∧ SendsThumbnail body thumbnail := by
  obtain ⟨p, hp, hworld, hanswered, horigins⟩ := http_refines_requests hq
  rw [← hworld] at hapart
  obtain ⟨t₁, ht₁, hout, ⟨u, endpoint⟩, hcall₁, hendpoint, -⟩ := hanswered t ht req rep hcall hrep
  obtain ⟨x, hroute, hfollows⟩ := handle_follows hp ht₁ hcall₁ hout
  have hcalls : endpoint.Calls u x := route_calls hroute
  obtain rfl : endpoint = req.endpoint := hendpoint
  constructor
  · rintro body rfl
    obtain ⟨id, r, media, bytes, rfl, rfl, hfind, hget⟩ := call_of_blob hfollows
    obtain ⟨stream, hstream⟩ : ∃ stream, req.endpoint = .getBlobUrl id stream := by
      generalize req.endpoint = endpoint at hcalls
      cases hcalls
      exact ⟨_, rfl⟩
    obtain ⟨hid, object, hbytes, t₂, ht₂, y, hy, hdrew, hput, ownerId, file, context, thumbnailFile,
      hrow⟩ := read_of_row hp hapart ht₁ (Or.inl rfl) hfind hget
    obtain ⟨t', ht', hlog, hcalls₂⟩ := horigins t₂ ht₂
    obtain ⟨sharedWith, rfl⟩ := hrow.call
    obtain ⟨rfl, hchecked⟩ := hput.file_of hrow.storagePath
    refine ⟨id, stream, media.id, hstream, hid, t', ht', file, context, thumbnailFile,
      uploadedBy_of_makes hlog hcalls₂ hy rfl hdrew, hbytes, hrow.contentType,
      congrArg some hrow.blobSize, ?_, fun hf => ?_⟩
    · simpa [enforceMime, throwIf_eq_ok] using hchecked.mime
    · exact validBlob_of_checks hf hchecked.size hchecked.magic hchecked.mime
  · rintro body rfl
    obtain ⟨id, r, media, path, bytes, rfl, rfl, hpath, hfind, hget⟩ := call_of_thumbnail hfollows
    obtain ⟨stream, hstream⟩ : ∃ stream, req.endpoint = .getThumbnailUrl id stream := by
      generalize req.endpoint = endpoint at hcalls
      cases hcalls
      exact ⟨_, rfl⟩
    obtain ⟨hid, object, hbytes, t₂, ht₂, y, hy, hdrew, hput, ownerId, file, context, thumbnailFile,
      hrow⟩ := read_of_row hp hapart ht₁ (Or.inr hpath) hfind hget
    obtain ⟨t', ht', hlog, hcalls₂⟩ := horigins t₂ ht₂
    obtain ⟨sharedWith, rfl⟩ := hrow.call
    obtain ⟨thumbnail, rfl, rfl, hchecked⟩ := hput.thumbnail_of (hrow.thumbnailPath path hpath)
    exact ⟨id, stream, media.id, hstream, hid, t', ht', file, context, thumbnail,
      uploadedBy_of_makes hlog hcalls₂ hy rfl hdrew, hbytes, rfl,
      fun hf => validThumbnail_of_checks hf hchecked⟩

/-- A message is uploaded, and its body is sent to its owner. -/
def uploadThenStream : List (Label HttpCall HttpAct) :=
  keyLoaded ++ servedAlone 0 27 (bearing "t7" (.upload exampleUploadDto)) ++
    servedAlone 2 8 (bearing "t7" (.getBlobUrl (exampleId 1) (some "1")))

theorem served_as_uploaded_message : ∃ q, ∃ body : StreamableFile,
    (httpService exampleEnv exampleHttp faultless).play (fun _ _ => True) ⟨.start exampleHttp, []⟩
      uploadThenStream = some q ∧ body.stream.bytes = [0] ∧
    ∃ id stream mediaId, Endpoint.getBlobUrl (exampleId 1) (some "1") = .getBlobUrl id stream ∧
      exampleEnv.uuidIn id = some mediaId ∧ ∃ t' ∈ q.threads, ∃ file context thumbnailFile,
        UploadedBy t' mediaId file context thumbnailFile ∧ SendsFile body file context := by
  have hplay : (((httpService exampleEnv exampleHttp faultless).play (fun _ _ => True)
      ⟨.start exampleHttp, []⟩ uploadThenStream).filter fun q => q.world.service.drawn ≤ 10 ∧
        ∃ t ∈ q.threads, t.call = .request (bearing "t7" (.getBlobUrl (exampleId 1) (some "1"))) ∧
          t.outcome = some (.ok (.blob ⟨⟨s!"messages/{exampleId 7}/{exampleId 1}.bin", [0]⟩,
            "application/octet-stream", some 1⟩))).isSome = true := by
    decide +kernel
  obtain ⟨q, hq⟩ := Option.isSome_iff_exists.mp hplay
  simp only [Option.filter_eq_some_iff, decide_eq_true_eq] at hq
  obtain ⟨hq, hdrawn, t, ht, hcall, hout⟩ := hq
  exact ⟨q, _, hq, rfl, (served_as_uploaded exampleEnv exampleHttp faultless q
    (System.runs_of_play hq) (exampleEnv_drawsApart hdrawn) t ht _ hcall _ hout).1 _ rfl⟩

end WhisprMedia
