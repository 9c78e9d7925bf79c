import WhisprMedia.Rows
import Mathlib.Data.Finset.Dedup
import Mathlib.Data.Finset.Card

/-! What a request writes back. A share, a dedup hit and the fills of the two caches write what
they have made of a row that the request has looked up before: the last one that it has found. -/
namespace WhisprMedia
open Awaiting MediaService QuotaService

/-! Unions of users -/

theorem mem_setAdd {s : List String} {x y : String} : y ∈ setAdd s x ↔ y ∈ s ∨ y = x := by
  unfold setAdd
  by_cases hx : s.contains x = true
  · rw [if_pos hx]
    have hmem : x ∈ s := by simpa using hx
    constructor
    · exact Or.inl
    · rintro (h | rfl)
      · exact h
      · exact hmem
  · rw [if_neg hx, List.mem_append, List.mem_singleton]

theorem mem_foldl_setAdd {s xs : List String} {y : String} :
    y ∈ xs.foldl setAdd s ↔ y ∈ s ∨ y ∈ xs := by
  induction xs generalizing s with
  | nil => simp
  | cons x xs ih => rw [List.foldl_cons, ih, mem_setAdd, List.mem_cons, or_assoc]

theorem length_le_setAdd (s : List String) (x : String) : s.length ≤ (setAdd s x).length := by
  unfold setAdd
  split
  · exact le_refl _
  · rw [List.length_append]
    omega

theorem length_le_foldl_setAdd (s xs : List String) : s.length ≤ (xs.foldl setAdd s).length := by
  induction xs generalizing s with
  | nil => exact le_refl _
  | cons x xs ih => exact le_trans (length_le_setAdd s x) (ih (setAdd s x))

/-- A union as long as the set it started from has added nothing. -/
theorem subset_of_length_foldl {s xs : List String} (h : (xs.foldl setAdd s).length = s.length) :
    ∀ x ∈ xs, x ∈ s := by
  induction xs generalizing s with
  | nil => simp
  | cons x xs ih =>
    rw [List.foldl_cons] at h
    have hle := length_le_foldl_setAdd (setAdd s x) xs
    have hx : x ∈ s := by
      by_contra hx
      have hlen : (setAdd s x).length = s.length + 1 := by
        simp [setAdd, hx]
      omega
    have hs : setAdd s x = s := if_pos (by simpa using hx)
    rw [hs] at h
    intro y hy
    rcases List.mem_cons.mp hy with rfl | hy
    · exact hx
    · exact ih h y hy

theorem mem_newSet {xs : List String} {y : String} : y ∈ newSet xs ↔ y ∈ xs := by
  rw [newSet, mem_foldl_setAdd]
  simp

theorem nodup_foldl_setAdd {s xs : List String} (h : s.Nodup) : (xs.foldl setAdd s).Nodup := by
  induction xs generalizing s with
  | nil => exact h
  | cons x xs ih =>
    refine ih ?_
    unfold setAdd
    split
    · exact h
    · next hx => exact List.Nodup.append h (List.nodup_singleton x) (by simpa using hx)

theorem mem_mergeUsers {ownerId : String} {m : Media} {uids : List String} {y : String} :
    y ∈ mergeUsers ownerId m.sharedWith uids ↔ y ∈ m.acl ∨ y ∈ otherUsers ownerId uids := by
  rw [mergeUsers, mem_foldl_setAdd, mem_newSet]
  rfl

/-- The array that a share writes holds the union. -/
theorem mem_written {ownerId : String} {m : Media} {uids : List String} {y : String}
    (h : y ∈ m.acl ∨ y ∈ otherUsers ownerId uids) :
    y ∈ (if (mergeUsers ownerId m.sharedWith uids).isEmpty then none
      else some (mergeUsers ownerId m.sharedWith uids)).getD [] := by
  have hmem := mem_mergeUsers.mpr h
  split
  · next hempty => simp [List.isEmpty_iff.mp hempty] at hmem
  · exact hmem

/-- A union has one place for each user. -/
theorem length_mergeUsers {ownerId : String} {m : Media} {uids : List String} :
    (mergeUsers ownerId m.sharedWith uids).length =
      (m.acl.toFinset ∪ (otherUsers ownerId uids).toFinset).card := by
  have hnodup : (mergeUsers ownerId m.sharedWith uids).Nodup :=
    nodup_foldl_setAdd (nodup_foldl_setAdd List.nodup_nil)
  rw [← List.toFinset_card_of_nodup hnodup]
  congr 1
  ext y
  rw [List.mem_toFinset, mem_mergeUsers, Finset.mem_union, List.mem_toFinset, List.mem_toFinset]

theorem mem_otherUsers {ownerId uid : String} {uids : List String} :
    uid ∈ otherUsers ownerId uids ↔ uid ∈ uids ∧ uid ≠ "" ∧ uid ≠ ownerId := by
  simp [otherUsers]

theorem mem_initialSharedWith {ownerId uid : String} {sharedWith : Option (List String)} :
    uid ∈ (initialSharedWith ownerId sharedWith).getD [] ↔
      uid ∈ otherUsers ownerId (sharedWith.getD []) := by
  cases sharedWith with
  | none => simp [initialSharedWith, otherUsers]
  | some uids =>
    rw [initialSharedWith]
    split
    · next h =>
      have hempty : ∀ y, y ∉ newSet (otherUsers ownerId uids) := by
        simp [List.isEmpty_iff.mp h]
      constructor
      · intro hu
        exact absurd hu (by simp)
      · intro hu
        exact absurd (mem_newSet.mpr hu) (hempty uid)
    · exact mem_newSet

/-! Lookups -/

/-- The row that a lookup has found. -/
def foundMedia : (c : Cmd) → c.Reply → Option Media
  | .findMedia _ _, .ok media => media
  | _, _ => none

def foundQuota : (c : Cmd) → c.Reply → Option UserQuota
  | .findQuota _, .ok row => row
  | _, _ => none

/-- The row of a media that a request has found last. -/
def lastMedia (log : ServiceLog) : Option Media :=
  log.foldl (fun found e => (foundMedia e.1 e.2).or found) none

/-- The row of a quota that a request has found last. -/
def lastQuota (log : ServiceLog) : Option UserQuota :=
  log.foldl (fun found e => (foundQuota e.1 e.2).or found) none

theorem lastMedia_concat {log : ServiceLog} {c : Cmd} {r : c.Reply} :
    lastMedia (log ++ [⟨c, r⟩]) = (foundMedia c r).or (lastMedia log) := by
  rw [lastMedia, List.foldl_append]
  rfl

theorem lastQuota_concat {log : ServiceLog} {c : Cmd} {r : c.Reply} :
    lastQuota (log ++ [⟨c, r⟩]) = (foundQuota c r).or (lastQuota log) := by
  rw [lastQuota, List.foldl_append]
  rfl

/-- A write of an ACL or of an entry stores what its request has found last; an ACL only grows
against that. -/
structure WritesBack (log : ServiceLog) (c : Cmd) : Prop where
  acl : ∀ user id l, c = .updateSharedWith user id l →
    ∃ media, lastMedia log = some media ∧ ∀ v ∈ media.acl, v ∈ l.getD []
  entry : ∀ key e ttl, c = .setMeta key e ttl →
    ∃ media, lastMedia log = some media ∧ e = ⟨toMetadataDto media, media.sharedWith⟩
  quota : ∀ key e ttl, c = .setQuota key e ttl →
    ∃ row, lastQuota log = some row ∧ e = toCached row

/-- The families with such a write. -/
def Family.writesBack : Family → Bool
  | .mediaAcl | .metadata | .quotaFill => true
  | _ => false

section Bodies
variable {env : Env} {log : ServiceLog}

theorem writesBack_of_family {c : Cmd} (h : c.family.writesBack = false) : WritesBack log c := by
  refine ⟨?_, ?_, ?_⟩
  all_goals
    rintro _ _ _ rfl
    exact absurd h (by simp [Cmd.family, Family.writesBack])

/-- A part that writes nothing back. -/
theorem touch_writesBack {α : Type} {F : List Family} {x : Svc α} (hx : Touches F x)
    (hF : ∀ f ∈ F, f.writesBack = false) : x.IssuesAfter WritesBack log :=
  hx.issues.after fun _ _ hc => writesBack_of_family (hF _ hc)

theorem delMeta_writesBack (key : String) : (await (.delMeta key)).IssuesAfter WritesBack log :=
  ProgE.issuesAfter_issue ⟨by simp, by simp, by simp⟩

theorem sync_follows {α : Type} {x : Except Err α} {a : α} {l : ServiceLog}
    (h : (sync x).run.Follows l (.pure (.ok a))) : l = [] ∧ x = .ok a := by
  obtain ⟨rfl, hx⟩ := Prog.Follows.of_pure h
  exact ⟨rfl, (Prog.pure.inj hx).symm⟩

/-- The last row that the transaction has found is the one it returns. -/
theorem findOrInsertRow_follows {userId : String} {row : UserQuota} {l : ServiceLog}
    (h : (findOrInsertRow userId).run.Follows l (.pure (.ok row))) :
    lastQuota (log ++ l) = some row := by
  have hlast (l : ServiceLog) (r : UserQuota) : lastQuota (log ++ (l ++
      [⟨.findQuota userId, .ok (some r)⟩])) = some r := by
    rw [← List.append_assoc, lastQuota_concat]
    rfl
  obtain ⟨found, l₁, l₂, rfl, h₁, h₂⟩ := ProgE.returned_of_bind h
  obtain rfl := follows_await h₁
  cases found with
  | some r =>
    obtain ⟨rfl, hr⟩ := Prog.Follows.of_pure h₂
    obtain rfl := Except.ok.inj (Prog.pure.inj hr)
    exact hlast [] row
  | none =>
    -- after the INSERT the row is looked up once more
    obtain ⟨_, l₃, l₄, rfl, -, h₄⟩ := ProgE.returned_of_bind h₂
    obtain ⟨again, l₅, l₆, rfl, h₅, h₆⟩ := ProgE.returned_of_bind h₄
    obtain rfl := follows_await h₅
    cases again with
    | none => exact absurd h₆.of_pure.2 (by rintro ⟨⟩)
    | some r =>
      obtain ⟨rfl, hr⟩ := Prog.Follows.of_pure h₆
      obtain rfl := Except.ok.inj (Prog.pure.inj hr)
      rw [List.append_nil]
      have hlater := hlast ([⟨.findQuota userId, .ok none⟩] ++ l₃) row
      rwa [List.append_assoc [_] l₃] at hlater

theorem getOrCreateQuota_writesBack (userId : String) :
    (getOrCreateQuota userId).IssuesAfter WritesBack log := by
  refine ProgE.IssuesAfter.bind (touch_writesBack (F := [.quotaCache])
    (touches_quietly (by simp [Cmd.family])) (by decide)) fun cached l₁ _ => ?_
  cases cached with
  | some cached => exact touch_writesBack (F := []) (touches_sync _) (by simp)
  | none =>
    -- the entry is made of the row that the transaction returns; a SET that fails is swallowed
    refine ProgE.IssuesAfter.bind (touch_writesBack (F := [.quotaLookup])
      (findOrInsertRow_touches userId) (by decide)) fun row l₂ h₂ => ?_
    refine ProgE.IssuesAfter.bind (ProgE.IssuesAfter.tryCatch (ProgE.issuesAfter_issue
      ⟨by simp, by simp, ?_⟩) fun _ _ _ => ProgE.issuesAfter_pure _)
      fun _ _ _ => ProgE.issuesAfter_pure _
    rintro _ _ _ ⟨rfl, rfl, rfl⟩
    exact ⟨row, findOrInsertRow_follows h₂, rfl⟩

theorem checkQuota_writesBack (userId : String) (blobSize : JsNumber) :
    (checkQuota userId blobSize).IssuesAfter WritesBack log :=
  ProgE.IssuesAfter.bind (touch_writesBack (F := []) (touches_sync _) (by simp)) fun _ _ _ =>
    ProgE.IssuesAfter.bind (getOrCreateQuota_writesBack userId) fun _ _ _ =>
      ProgE.issuesAfter_pure _

theorem enforceQuota_writesBack (userId : String) (blobSize : JsNumber) :
    (enforceQuota userId blobSize).IssuesAfter WritesBack log :=
  ProgE.IssuesAfter.bind (checkQuota_writesBack userId blobSize) fun _ _ _ =>
    touch_writesBack (F := []) (touches_sync _) (by simp)

theorem checkAndPublishQuotaAlert_writesBack (userId : String) :
    (checkAndPublishQuotaAlert userId).IssuesAfter WritesBack log := by
  refine ProgE.IssuesAfter.bind (getOrCreateQuota_writesBack userId) fun quota _ _ => ?_
  split
  · exact ProgE.issuesAfter_pure _
  · exact touch_writesBack (publishQuotaAlerts_touches quota userId _ _) (by decide)

theorem share_writesBack (id requesterId : String) (uids : List String) :
    (share id requesterId uids).IssuesAfter WritesBack log := by
  refine ProgE.IssuesAfter.bind (touch_writesBack (findActive_touches id requesterId) (by decide))
    fun media l₁ h₁ => ProgE.IssuesAfter.bind (touch_writesBack (F := []) (touches_sync _) (by simp))
      fun _ l₂ h₂ => ?_
  obtain rfl := findActive_follows h₁
  obtain ⟨rfl, -⟩ := sync_follows h₂
  dsimp only
  split
  · exact ProgE.issuesAfter_pure _
  · refine ProgE.IssuesAfter.bind (ProgE.issuesAfter_issue ⟨?_, by simp, by simp⟩) fun _ _ _ =>
      ProgE.IssuesAfter.bind (delMeta_writesBack _) fun _ _ _ => ProgE.issuesAfter_pure _
    rintro _ _ _ ⟨rfl, rfl, rfl⟩
    exact ⟨media, by rw [List.append_nil, lastMedia_concat]; rfl, fun v hv => mem_written (Or.inl hv)⟩

theorem findDuplicate_follows {ownerId key : String} {existing : Media} {l : ServiceLog}
    (h : (findDuplicate ownerId key).run.Follows l (.pure (.ok (some existing)))) :
    lastMedia (log ++ l) = some existing := by
  obtain ⟨existingId, l₁, l₂, rfl, -, h₂⟩ := ProgE.returned_of_bind h
  cases hid : truthy existingId with
  | none =>
    simp only [hid] at h₂
    exact absurd h₂.of_pure.2 (by rintro ⟨⟩)
  | some id =>
    simp only [hid] at h₂
    rw [follows_await h₂, ← List.append_assoc, lastMedia_concat]
    rfl

/-- A merge of the ACL that has been found last. -/
theorem mergeSharedWith_writesBack {ownerId : String} {existing : Media}
    {sharedWith : Option (List String)} (h : lastMedia log = some existing) :
    (mergeSharedWith ownerId existing sharedWith).IssuesAfter WritesBack log := by
  unfold mergeSharedWith
  dsimp only
  split
  · refine ProgE.IssuesAfter.bind (ProgE.issuesAfter_issue ⟨?_, by simp, by simp⟩) fun _ _ _ =>
      delMeta_writesBack _
    rintro _ _ _ ⟨rfl, rfl, rfl⟩
    exact ⟨existing, h, fun v hv => mem_mergeUsers.mpr (Or.inl hv)⟩
  · exact ProgE.issuesAfter_pure _

theorem uploadHeld_writesBack (ownerId : String) (file : File) (context : MediaContext)
    (thumbnailFile : Option File) (sharedWith : Option (List String)) :
    (uploadHeld env ownerId file context thumbnailFile sharedWith).IssuesAfter WritesBack log := by
  refine ProgE.IssuesAfter.bind (touch_writesBack (authorizeGroupIconUpload_touches env context
    ownerId) (by decide)) fun _ l₁ _ => ?_
  refine ProgE.IssuesAfter.bind (enforceQuota_writesBack ownerId _) fun _ l₂ _ => ?_
  refine ProgE.IssuesAfter.bind (touch_writesBack (validateFile_touches env file context)
    (by decide)) fun _ l₃ _ => ?_
  refine ProgE.IssuesAfter.bind (touch_writesBack (findDuplicate_touches ownerId _) (by decide))
    fun duplicate l₄ h₄ => ?_
  cases duplicate with
  | some existing =>
    -- the union starts from the row that the dedup entry has led to
    exact ProgE.IssuesAfter.bind (mergeSharedWith_writesBack (findDuplicate_follows h₄))
      fun _ _ _ => touch_writesBack (buildUploadResponse_touches env existing) (by decide)
  | none =>
    exact ProgE.IssuesAfter.bind (touch_writesBack (storeNew_touches env ownerId file context
      thumbnailFile sharedWith) (by decide)) fun media _ _ =>
        touch_writesBack (afterStore_touches env ownerId file _ media) (by decide)

theorem upload_writesBack (ownerId : String) (file : File) (context : MediaContext)
    (thumbnailFile : Option File) (sharedWith : Option (List String)) :
    (upload env ownerId file context thumbnailFile sharedWith).IssuesAfter WritesBack log :=
  ProgE.IssuesAfter.bind (touch_writesBack (acquireSemaphore_touches ownerId) (by decide))
    fun _ _ _ => ProgE.IssuesAfter.ensuring
      (uploadHeld_writesBack ownerId file context thumbnailFile sharedWith)
      fun _ => touch_writesBack (releaseSemaphore_touches ownerId) (by decide)

theorem getMetadata_writesBack (id requesterId : String) :
    (getMetadata id requesterId).IssuesAfter WritesBack log := by
  refine ProgE.IssuesAfter.bind (ProgE.issuesAfter_issue ⟨by simp, by simp, by simp⟩)
    fun cached l₁ _ => ?_
  cases cached with
  | some cached =>
    exact ProgE.IssuesAfter.bind (touch_writesBack (F := []) (touches_sync _) (by simp))
      fun _ _ _ => ProgE.issuesAfter_pure _
  | none =>
    refine ProgE.IssuesAfter.bind (touch_writesBack (findReadable_touches id requesterId)
      (by decide)) fun media l₂ h₂ => ?_
    obtain rfl := findReadable_follows h₂
    refine ProgE.IssuesAfter.bind (ProgE.issuesAfter_issue ⟨by simp, ?_, by simp⟩)
      fun _ _ _ => ProgE.issuesAfter_pure _
    rintro _ _ _ ⟨rfl, rfl, rfl⟩
    exact ⟨media, by rw [lastMedia_concat]; rfl, rfl⟩

theorem delete_writesBack (id requesterId : String) :
    (delete id requesterId).IssuesAfter WritesBack log := by
  refine ProgE.IssuesAfter.bind (touch_writesBack (findActive_touches id requesterId) (by decide))
    fun media _ _ => ProgE.IssuesAfter.bind (touch_writesBack (F := []) (touches_sync _) (by simp))
      fun _ _ _ => ProgE.IssuesAfter.bind (touch_writesBack (F := [.mediaDelete])
        (touches_await (by simp [Cmd.family])) (by decide)) fun _ _ _ => ?_
  have hrest (log : ServiceLog) : (do
      await (.delMeta (metaKey id))
      recordDelete requesterId (.int media.blobSize) : Svc Unit).IssuesAfter WritesBack log :=
    ProgE.IssuesAfter.bind (delMeta_writesBack _) fun _ _ _ =>
      touch_writesBack (recordDelete_touches requesterId _) (by decide)
  refine ProgE.IssuesAfter.bind (touch_writesBack (F := [.bucket])
    (touches_await (by simp [Cmd.family])) (by decide)) fun _ _ _ => ?_
  split
  · exact ProgE.IssuesAfter.bind (touch_writesBack (F := [.bucket])
      (touches_await (by simp [Cmd.family])) (by decide)) fun _ _ _ => hrest _
  · exact hrest _

/-- Every request writes back what it has found last. -/
theorem handle_writesBack (env : Env) (x : Call) : (handle env x).IssuesAfter WritesBack [] := by
  cases x with
  | upload o f c t s => exact (upload_writesBack o f c t s).map
  | share id r uids => exact (share_writesBack id r uids).map
  | delete id r => exact (delete_writesBack id r).map
  | getMetadata id r => exact (getMetadata_writesBack id r).map
  | checkQuota u n => exact (checkQuota_writesBack u n).map
  | checkAndPublishQuotaAlert u => exact (checkAndPublishQuotaAlert_writesBack u).map
  | _ => exact touch_writesBack (handle_families env _) (by simp [Call.families, Family.writesBack])

end Bodies

/-- The next command of a thread in a run, after the commands that its log holds. -/
theorem writesBack_of_runs {env : Env} {ok : ServicePool → Label Call Act → Prop} {w : World}
    {p : ServicePool} (h : (service env).Runs ok ⟨w, []⟩ p) {i : ℕ} {t : ServiceThread}
    (ht : p.threads[i]? = some t) {c : Cmd} (hc : p.nextCmd i = some c) : WritesBack t.log c := by
  have hf := h.follows (fun t ht => absurd ht List.not_mem_nil) t (List.mem_of_getElem? ht)
  obtain ⟨x, log, rest⟩ := t
  cases rest with
  | pure a => simp [Pool.nextCmd, ht] at hc
  | step c' k =>
    -- what the body issues after any log holds of the thread's own log
    simp only [Pool.nextCmd, ht, Option.some.injEq] at hc
    subst hc
    have hafter : Prog.IssuesAfter WritesBack ([] ++ log) (.step c' k) :=
      Prog.IssuesAfter.of_follows (handle_writesBack env x) hf
    exact hafter.1

end WhisprMedia
