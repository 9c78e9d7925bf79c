import WhisprMedia.AclWriters
import WhisprMedia.StorageAlignment

/-! What the ACL of a media is over a serial run of uploads and shares: the users that were listed
for it, as long as no list spells a user in a way of its own. -/
namespace WhisprMedia
open Awaiting Keyed MediaService QuotaService

/-! The UPDATEs that are issued -/

/-- An UPDATE of an ACL is of the row that the call has come to, where a listed text is missing. -/
def UpdatesMissing (env : Env) (w : World) (x : Call) (c : Cmd) : Prop :=
  ∀ a ∈ c.aclUpdate?, ∃ m, w.media.get m.id = some m ∧ x.Merges env w m ∧
    env.uuidIn a.2.1 = some m.id ∧ ∃ uid ∈ otherUsers m.ownerId x.listed, uid ∉ m.acl

section Updates
variable {env : Env} {w : World} {x : Call}

theorem updatesMissing_of_none {c : Cmd} (h : c.aclUpdate? = none) : UpdatesMissing env w x c := by
  intro a ha
  rw [h] at ha
  cases ha

/-- Parts that write no ACL. -/
theorem issuing_without_acl {α : Type} {F : List Family} {y : Svc α} {u : World}
    {Q : α → World → Prop} {E : Err → World → Prop} (hy : Touches F y) (hF : Family.mediaAcl ∉ F)
    (he : ProgE.Ends env.exec y u Q E) :
    ProgE.Issuing env.exec (fun c _ => UpdatesMissing env w x c) y u Q := by
  refine ProgE.issuing_of_ends hy.issues (fun c _ hc => updatesMissing_of_none ?_) he
  cases c <;> first | rfl | exact absurd hc hF

theorem issuing_silent {α : Type} {F : List Family} {y : Svc α} {u : World} (hy : Touches F y)
    (hF : Family.mediaAcl ∉ F) :
    ProgE.Issuing env.exec (fun c _ => UpdatesMissing env w x c) y u fun _ _ => True :=
  issuing_without_acl hy hF (E := fun _ _ => True) (ends_of_touches (S := fun _ _ => True) hy
    (fun _ => trivial) (fun _ _ _ _ _ => trivial) fun _ _ _ => trivial)

/-- The UPDATE of a union that has added something. -/
theorem issuing_update {user i : String} {l : Option (List String)} {u : World}
    (hup : ∃ m, w.media.get m.id = some m ∧ x.Merges env w m ∧ env.uuidIn i = some m.id ∧
      ∃ uid ∈ otherUsers m.ownerId x.listed, uid ∉ m.acl) :
    ProgE.Issuing env.exec (fun c _ => UpdatesMissing env w x c)
      (await (.updateSharedWith user i l)) u fun _ _ => True := by
  refine ProgE.issuing_issue (fun a ha => ?_) fun _ _ => trivial
  obtain rfl := Option.some.inj ha
  exact hup

theorem share_updates (h : MediaStores env w)
    (hnodup : ∀ k m, w.media.get k = some m → m.acl.Nodup) (i requesterId : String)
    (uids : List String) :
    ProgE.Issuing env.exec (fun c _ => UpdatesMissing env w (.share i requesterId uids) c)
      (share i requesterId uids) w fun _ _ => True := by
  refine ProgE.Issuing.bind (issuing_without_acl (findActive_touches i requesterId) (by decide)
    (findActive_ends h.canonical)) fun m w₁ h₁ => ?_
  obtain ⟨rfl, hi, hm, hact⟩ := h₁
  refine ProgE.Issuing.bind (Q := fun _ _ => m.ownerId = requesterId) (issuing_without_acl (F := [])
    (touches_sync _) List.not_mem_nil (E := fun _ _ => True) (ends_sync (fun _ howner => ?_)
    fun _ _ => trivial)) fun _ w₂ ho => ?_
  · exact enforceOwner_eq_ok.mp howner
  have hset : newSet (m.sharedWith.getD []) = m.acl := newSet_of_nodup (hnodup _ _ hm)
  dsimp only
  rw [hset]
  split
  · exact ProgE.issuing_pure trivial
  · next hlen =>
    refine ProgE.Issuing.bind (issuing_update ⟨m, hm, ⟨hi, hm, hact, ho⟩, hi,
      added_of_length (hnodup _ _ hm) hlen⟩) fun _ w₃ _ => ?_
    exact ProgE.Issuing.bind (issuing_silent (F := [.metadata])
      (touches_await (by simp [Cmd.family])) (by decide)) fun _ _ _ => ProgE.issuing_pure trivial

variable {ownerId : String} {file : File} {context : MediaContext} {thumbnailFile : Option File}
  {sharedWith : Option (List String)}

theorem mergeSharedWith_updates {m : Media} {u : World} (hcanon : RowsCanonical env w)
    (hnodup : m.acl.Nodup) (hm : w.media.get m.id = some m) (hmerges : x.Merges env w m)
    (hlisted : x.listed = sharedWith.getD []) :
    ProgE.Issuing env.exec (fun c _ => UpdatesMissing env w x c)
      (mergeSharedWith ownerId m sharedWith) u fun _ _ => True := by
  unfold mergeSharedWith
  dsimp only
  split
  · next hwrites =>
    have hlen : (mergeUsers m.ownerId m.sharedWith x.listed).length ≠ m.acl.length := by
      have h := (Bool.and_eq_true_iff.mp hwrites).2
      rw [hlisted]
      simpa [Media.acl] using h
    refine ProgE.Issuing.bind (issuing_update ⟨m, hm, hmerges, (hcanon _ _ hm).id,
      added_of_length hnodup hlen⟩) fun _ _ _ => ?_
    exact issuing_silent (F := [.metadata]) (touches_await (by simp [Cmd.family])) (by decide)
  · exact ProgE.issuing_pure trivial

/-- What is left of an upload that holds its slot. -/
theorem uploadHeld_updates (h : MediaStores env w)
    (hnodup : ∀ k m, w.media.get k = some m → m.acl.Nodup) {w₀ : World}
    (hacquire : (Prog.run env.exec (acquireSemaphore ownerId).run w).result = .ok ())
    (hw₀ : w₀ = (Prog.run env.exec (acquireSemaphore ownerId).run w).world) (hcalm : Calm w w₀) :
    ProgE.Issuing env.exec
      (fun c _ => UpdatesMissing env w (.upload ownerId file context thumbnailFile sharedWith) c)
      (uploadHeld env ownerId file context thumbnailFile sharedWith) w₀ fun _ _ => True := by
  refine ProgE.Issuing.bind (issuing_without_acl (authorizeGroupIconUpload_touches env context
    ownerId) (by decide) (ends_calm (faithful_exec env) (authorizeGroupIconUpload_touches env context
    ownerId) (by decide))).and_run fun _ w₁ h₁ => ?_
  obtain ⟨hcalm₁, hgroup, hw₁⟩ := h₁
  refine ProgE.Issuing.bind (issuing_without_acl (enforceQuota_touches ownerId _) (by decide)
    (ends_calm (faithful_exec env) (enforceQuota_touches ownerId _) (by decide))).and_run
    fun _ w₂ h₂ => ?_
  obtain ⟨hcalm₂, hquota, hw₂⟩ := h₂
  refine ProgE.Issuing.bind (issuing_without_acl (validateFile_touches env file context) (by decide)
    (ends_calm (faithful_exec env) (validateFile_touches env file context) (by decide))).and_run
    fun _ w₃ h₃ => ?_
  obtain ⟨hcalm₃, hfile, -⟩ := h₃
  -- the checks were run on the way here, in the same order
  have hchecks : PassesChecks env w ownerId file context := by
    unfold PassesChecks uploadChecks
    rw [run_result_bind hacquire, ← hw₀, run_result_bind hgroup, ← hw₁, run_result_bind hquota,
      ← hw₂, hfile]
  refine ProgE.Issuing.bind (issuing_without_acl (findDuplicate_touches ownerId _) (by decide)
    (findDuplicate_ends _)) fun duplicate w₄ h₄ => ?_
  have hkey : duplicate = duplicateOf env w ownerId (uploadKey env ownerId file context) :=
    h₄.2.trans (duplicateOf_calm (((hcalm.trans hcalm₁).trans hcalm₂).trans hcalm₃) _)
  cases duplicate with
  -- the one UPDATE is that of the duplicate
  | some existing =>
    have hm := (duplicate_owned h hkey.symm).1
    refine ProgE.Issuing.bind (mergeSharedWith_updates h.canonical (hnodup _ _ hm) hm
      ⟨hchecks, hkey.symm⟩ rfl) fun _ _ _ => ?_
    exact issuing_silent (buildUploadResponse_touches env existing) (by decide)
  -- a new row gets its ACL with the INSERT
  | none =>
    refine ProgE.Issuing.bind (issuing_silent (storeNew_touches env ownerId file context
      thumbnailFile sharedWith) (by decide)) fun media _ _ => ?_
    refine ProgE.Issuing.bind (issuing_silent (F := [.dedup]) (touches_await (by simp [Cmd.family]))
      (by decide)) fun _ _ _ => ?_
    exact ProgE.Issuing.bind (issuing_silent (recordUpload_touches ownerId _) (by decide))
      fun _ _ _ => issuing_silent (buildUploadResponse_touches env media) (by decide)

theorem upload_updates (h : MediaStores env w)
    (hnodup : ∀ k m, w.media.get k = some m → m.acl.Nodup) :
    ProgE.Issuing env.exec
      (fun c _ => UpdatesMissing env w (.upload ownerId file context thumbnailFile sharedWith) c)
      (upload env ownerId file context thumbnailFile sharedWith) w fun _ _ => True := by
  refine ProgE.Issuing.bind (issuing_without_acl (acquireSemaphore_touches ownerId) (by decide)
    (ends_calm (faithful_exec env) (acquireSemaphore_touches ownerId) (by decide))).and_run
    fun _ w₀ h₀ => ?_
  exact ProgE.Issuing.ensuring (uploadHeld_updates h hnodup h₀.2.1 h₀.2.2 h₀.1) fun u =>
    issuing_silent (releaseSemaphore_touches ownerId) (by decide)

end Updates

/-! Serial runs -/

/-- The user was listed for a media by a call that has returned. -/
def Requested (env : Env) (k : String) (tr : List ServiceServed) (u : String) : Prop :=
  ∃ s ∈ tr, ∃ uid ∈ listsFor env k s.call s.done.result, env.uuidIn uid = some u

/-- Uploads and shares of any users, while entries expire and time passes. -/
def SharingCalls (_ : World) : Label Call Act → Prop
  | .call (.upload _ _ _ _ _) | .call (.share _ _ _) | .act _ => True
  | _ => False

/-- What class-validator has let through: every text in the list is a uuid. -/
def ListsUuids (env : Env) : Label Call Act → Prop
  | .call x => ∀ uid ∈ x.listed, uid ≠ "" ∧ ∃ v, env.uuidIn uid = some v
  | _ => True

/-- If the call comes to write an ACL, its list is spelled apart. -/
def SpellsApart (env : Env) (w : World) : Label Call Act → Prop
  | .call x => (∀ m, x.Merges env w m → SpelledApart env m.ownerId m.ownerId m.acl x.listed) ∧
      ∀ ownerText owner, x.Inserts env w ownerText → env.uuidIn ownerText = some owner →
        SpelledApart env ownerText owner [] x.listed
  | _ => True

/-- Every ACL consists of the users that were listed for its row. -/
structure AclState (env : Env) (tr : List ServiceServed) (w : World) : Prop where
  stores : MediaStores env w
  entries : EntryRows env w
  acl : ∀ k m, w.media.get k = some m → AclOf m.ownerId (Requested env k tr) m.acl
  absent : ∀ k, w.media.get k = none → ∀ s ∈ tr, listsFor env k s.call s.done.result = []

/-- The UPDATEs of a call are of rows to which it adds a user. -/
def UpdatesAdd (env : Env) (s : ServiceServed) : Prop :=
  ∀ e ∈ s.done.log, ∀ a ∈ e.1.aclUpdate?, ∃ m, s.before.media.get m.id = some m ∧
    env.uuidIn a.2.1 = some m.id ∧
    ∃ uid ∈ s.call.listed, ∃ v, env.uuidIn uid = some v ∧ v ≠ m.ownerId ∧ v ∉ m.acl

section Runs
variable {env : Env} {w w' : World} {tr : List ServiceServed} {s : ServiceServed} {k : String}

theorem aclState_empty (env : Env) : AclState env [] World.empty := by
  have hnone (k : String) : World.empty.media.get k = none := rfl
  refine ⟨mediaStores_empty env, fun _ _ _ h => absurd h (by simp [World.empty]), fun k m hm => ?_,
    fun k _ s hs => absurd hs List.not_mem_nil⟩
  rw [hnone] at hm
  cases hm

theorem requested_append (u : String) : Requested env k (tr ++ [s]) u ↔ Requested env k tr u ∨
    ∃ uid ∈ listsFor env k s.call s.done.result, env.uuidIn uid = some u := by
  constructor
  · rintro ⟨s', hs', huid⟩
    rcases List.mem_append.mp hs' with hs' | hs'
    · exact Or.inl ⟨s', hs', huid⟩
    · rw [List.mem_singleton.mp hs'] at huid
      exact Or.inr huid
  · rintro (⟨s', hs', huid⟩ | huid)
    · exact ⟨s', List.mem_append_left _ hs', huid⟩
    · exact ⟨s, List.mem_append_right _ List.mem_cons_self, huid⟩

/-- A call that lists nobody for a row adds nothing to its requests. -/
theorem requested_of_nil (h : listsFor env k s.call s.done.result = []) (u : String) :
    Requested env k (tr ++ [s]) u ↔ Requested env k tr u := by
  rw [requested_append, h]
  simp

theorem requested_of_listed {uids : List String}
    (h : listsFor env k s.call s.done.result = uids) (u : String) :
    Requested env k tr u ∨ (∃ uid ∈ uids, env.uuidIn uid = some u) ↔
      Requested env k (tr ++ [s]) u := by
  rw [requested_append, h]

/-- The users of a row that was not there before. -/
theorem AclState.not_requested (h : AclState env tr w) (hk : w.media.get k = none) (u : String) :
    Requested env k tr u ↔ False := by
  refine iff_false_intro ?_
  rintro ⟨s, hs, uid, huid, -⟩
  rw [h.absent k hk s hs] at huid
  exact absurd huid List.not_mem_nil

/-- A new entry points to the new row of its user. -/
theorem mediaStores_stored (h : MediaStores env w) {ownerId : String} {file : File}
    {context : MediaContext} {thumbnailFile : Option File} {m : Media}
    (hs : Stored env ownerId file context thumbnailFile w w' m) (hcanon : RowsCanonical env w') :
    MediaStores env w' := by
  refine ⟨hcanon, fun o c d id hid => ?_⟩
  rcases hs.entry hid with ⟨rfl, -, -, rfl⟩ | hold
  · exact ⟨m, by rw [hs.get, if_pos rfl], hs.row.owner⟩
  · obtain ⟨m₀, hm₀, ho⟩ := h.dedup o c d id hold
    exact ⟨m₀, hs.old_row hm₀, ho⟩

theorem mediaLater_serve (x : Call) : MediaLater w ((service env).serve x w).world :=
  Prog.Issues.run_rel (P := fun _ => True) (Prog.issues_true _) env.exec MediaLater MediaLater.refl
    (fun _ _ _ h h' => h.trans h') (fun _ _ _ => mediaLater_exec) w

theorem mediaStores_serve (h : MediaStores env w) {x : Call} (hx : SharingCalls w (.call x)) :
    MediaStores env ((service env).serve x w).world := by
  have hcanon := canonical_serve x h.canonical
  have hlater := @mediaLater_serve env w x
  have hsame (hd : ((service env).serve x w).world.dedupCache = w.dedupCache) :
      MediaStores env ((service env).serve x w).world :=
    h.later hlater hcanon fun key id hid => hd ▸ hid
  cases x with
  | share i requesterId uids => exact hsame (serve_quiet (x := .share i requesterId uids) rfl).dedup
  | upload ownerId file context thumbnailFile sharedWith =>
    obtain ⟨r, hdone, -⟩ := serve_upload ownerId file context thumbnailFile sharedWith w
    cases hdone with
    | refused kept => exact hsame kept.dedup
    | reused m found kept answer => exact hsame kept.dedup
    | orphaned left => exact hsame left.dedup
    | uncharged m stored quotas missing cached => exact mediaStores_stored h stored hcanon
    | stored m missed stored charged answer => exact mediaStores_stored h stored hcanon
  | _ => exact hx.elim

theorem entries_serve (h : EntryRows env w) {x : Call} (hx : SharingCalls w (.call x)) :
    EntryRows env ((service env).serve x w).world := by
  have hends : ProgE.Ends env.exec (handle env x) w (fun _ => EntriesKept env w)
      (fun _ => EntriesKept env w) := by
    cases x with
    | share i requesterId uids =>
      exact (ends_entries (share_touches i requesterId uids) (by decide)).map fun _ _ h => h
    | upload ownerId file context thumbnailFile sharedWith => exact upload_entries.map fun _ _ h => h
    | _ => exact hx.elim
  cases hr : ((service env).serve x w).result with
  | ok rep => exact hends.of_ok hr h
  | error e => exact hends.of_error hr h

theorem AclState.nodup (h : AclState env tr w) : ∀ k m, w.media.get k = some m → m.acl.Nodup :=
  fun k m hm => (h.acl k m hm).nodup

/-- What one call does to the ACLs. -/
theorem AclState.step (h : AclState env tr w) (hdone : AclDone env w s.call s.done.result s.done.world)
    (hlists : ListsUuids env (.call s.call)) (hspells : SpellsApart env w (.call s.call))
    (hstores : MediaStores env s.done.world) (hentries : EntryRows env s.done.world) :
    AclState env (tr ++ [s]) s.done.world := by
  have hne : ∀ uid ∈ s.call.listed, uid ≠ "" := fun uid huid => (hlists uid huid).1
  have habsent {k : String} (hk : w.media.get k = none)
      (hnil : listsFor env k s.call s.done.result = []) :
      ∀ s' ∈ tr ++ [s], listsFor env k s'.call s'.done.result = [] := by
    intro s' hs'
    rcases List.mem_append.mp hs' with hs' | hs'
    · exact h.absent k hk s' hs'
    · rw [List.mem_singleton.mp hs']
      exact hnil
  have hkept {k : String} {m : Media} (hm : w.media.get k = some m)
      (hnil : listsFor env k s.call s.done.result = []) :
      AclOf m.ownerId (Requested env k (tr ++ [s])) m.acl :=
    (h.acl k m hm).congr fun u => (requested_of_nil hnil u).symm
  refine ⟨hstores, hentries, ?_, ?_⟩
  all_goals
    generalize s.done.world = w' at *
    intro k
  · -- a row has the users that were asked for it, before or by this call
    intro m₁ hm₁
    cases hdone with
    | kept unlisted media => exact hkept (media ▸ hm₁) (unlisted k)
    | merged m m' row merges listed merged =>
      rw [merged.rows] at hm₁
      have hlisted := listed k
      split at hm₁
      · next hk =>
        obtain rfl := Option.some.inj hm₁
        subst hk
        obtain ⟨fresh, heq, hfresh, hmem⟩ := mergeUsers_eq (h.nodup _ _ row) s.call.listed
        have hacl := merged.acl
        rw [heq] at hacl
        rw [if_pos rfl] at hlisted
        rw [show m'.ownerId = m.ownerId by rw [merged.row]]
        refine (aclOf_union (h.acl _ _ row) (h.stores.canonical _ _ row).acl
          (h.stores.canonical _ _ row).ownerId hne (hspells.1 m merges) hfresh hmem hacl).congr ?_
        exact requested_of_listed hlisted
      · next hk =>
        rw [if_neg (Ne.symm hk)] at hlisted
        exact hkept hm₁ hlisted
    | inserted m ownerText inserts listed inserted =>
      rw [inserted.rows, Table.get_insert inserted.fresh] at hm₁
      have hlisted := listed k
      split at hm₁
      · next hk =>
        obtain rfl := Option.some.inj hm₁
        subst hk
        rw [if_pos rfl] at hlisted
        obtain ⟨fresh, heq, hfresh, hmem⟩ := foldl_setAdd_eq [] (otherUsers ownerText s.call.listed)
        have hacl := inserted.acl
        rw [newSet, heq] at hacl
        refine (aclOf_union (aclOf_nil m.ownerId) (fun v hv => absurd hv List.not_mem_nil)
          inserted.owner hne (hspells.2 _ _ inserts inserted.owner) hfresh hmem hacl).congr
          fun u => ?_
        rw [← requested_of_listed hlisted u, h.not_requested inserted.fresh u]
      · next hk =>
        rw [if_neg (Ne.symm hk)] at hlisted
        exact hkept hm₁ hlisted
  · -- a missing row has been asked for by nobody
    intro hk
    cases hdone with
    | kept unlisted media => exact habsent (media ▸ hk) (unlisted k)
    | merged m m' row merges listed merged =>
      rw [merged.rows] at hk
      split at hk
      · cases hk
      · next hne => exact habsent hk ((listed k).trans (if_neg (Ne.symm hne)))
    | inserted m ownerText inserts listed inserted =>
      rw [inserted.rows, Table.get_insert inserted.fresh] at hk
      split at hk
      · cases hk
      · next hne => exact habsent hk ((listed k).trans (if_neg (Ne.symm hne)))

/-- A text that is missing and spelled apart is a user who is missing. -/
theorem updatesAdd_of_missing (hlists : ListsUuids env (.call s.call))
    (hspells : SpellsApart env s.before (.call s.call))
    (h : ∀ e ∈ s.done.log, UpdatesMissing env s.before s.call e.1) : UpdatesAdd env s := by
  intro e he a ha
  obtain ⟨m, hm, hmerges, hi, uid, huid, hnew⟩ := h e he a ha
  have hlisted := (mem_otherUsers.mp huid).1
  obtain ⟨-, v, hv⟩ := hlists uid hlisted
  have hapart := hspells.1 m hmerges
  refine ⟨m, hm, hi, uid, hlisted, v, hv, ?_, ?_⟩
  · rintro rfl
    exact hapart.notOwner uid huid hnew hv
  · intro hacl
    exact hapart.notStored uid huid hnew v hacl hv

theorem AclState.serve (h : AclState env tr w) {x : Call} (hx : SharingCalls w (.call x))
    (hlists : ListsUuids env (.call x)) (hspells : SpellsApart env w (.call x)) :
    AclState env (tr ++ [⟨x, w, (service env).serve x w⟩]) ((service env).serve x w).world ∧
      UpdatesAdd env ⟨x, w, (service env).serve x w⟩ := by
  have hdone : AclDone env w x ((service env).serve x w).result ((service env).serve x w).world := by
    cases x with
    | share i requesterId uids => exact share_done h.stores h.nodup i requesterId uids
    | upload ownerId file context thumbnailFile sharedWith =>
      exact upload_done h.stores h.nodup h.entries ownerId file context thumbnailFile sharedWith
    | _ => exact hx.elim
  have hissuing : ProgE.Issuing env.exec (fun c _ => UpdatesMissing env w x c) (handle env x) w
      fun _ _ => True := by
    cases x with
    | share i requesterId uids =>
      exact (share_updates h.stores h.nodup i requesterId uids).map fun _ _ h => h
    | upload ownerId file context thumbnailFile sharedWith =>
      exact (upload_updates h.stores h.nodup).map fun _ _ h => h
    | _ => exact hx.elim
  refine ⟨?_, updatesAdd_of_missing hlists hspells hissuing.log⟩
  exact AclState.step (s := ⟨x, w, (service env).serve x w⟩) h hdone hlists hspells
    (mediaStores_serve h.stores hx) (entries_serve h.entries hx)

theorem AclState.act (h : AclState env tr w) (a : Act) : AclState env tr (a.apply w) := by
  refine ⟨mediaStores_act a h.stores, fun s u hu hs => ?_, fun k m hm => ?_, fun k hk => ?_⟩
  · rw [act_quotas]
    obtain ⟨e, he⟩ := Option.isSome_iff_exists.mp hs
    exact h.entries s u hu (Option.isSome_iff_exists.mpr ⟨e, act_quotaCache he⟩)
  · rw [act_media] at hm
    exact h.acl k m hm
  · rw [act_media] at hk
    exact h.absent k hk

theorem acl_serial {w₀ : World} (h₀ : AclState env [] w₀)
    (hr : (service env).Serial (fun u l => SharingCalls u l ∧ ListsUuids env l ∧
      SpellsApart env u l) w₀ tr w) :
    AclState env tr w ∧ ∀ pre s, pre ++ [s] <+: tr →
      AclState env (pre ++ [s]) s.done.world ∧ UpdatesAdd env s := by
  induction hr with
  | refl =>
    refine ⟨h₀, fun pre s hs => ?_⟩
    have hlen := hs.length_le
    rw [List.length_append] at hlen
    exact absurd hlen (by simp)
  | @call tr u x _ hok ih =>
    obtain ⟨h, hall⟩ := ih
    have hserved := h.serve hok.1 hok.2.1 hok.2.2
    refine ⟨hserved.1, fun pre s hs => ?_⟩
    rcases List.prefix_concat_iff.mp hs with heq | hs
    · obtain ⟨rfl, hlast⟩ := List.append_inj' heq rfl
      obtain rfl := List.singleton_inj.mp hlast
      exact hserved
    · exact hall pre s hs
  | @act tr u a _ _ ih => exact ⟨ih.1.act a, ih.2⟩

end Runs

/-- In every serial run of uploads and shares whose lists are spelled apart, the ACL of a row
consists after every call of the users that were listed for it, each once, without the owner, and
the ACL is only written by calls that add a user. -/
theorem acl_is_union (env : Env) (tr : List ServiceServed) (w : World)
    (hr : (service env).Serial (fun u l => SharingCalls u l ∧ ListsUuids env l ∧
      SpellsApart env u l) World.empty tr w) :
    (∀ pre s, pre ++ [s] <+: tr → ∀ k m, s.done.world.media.get k = some m →
      AclOf m.ownerId (Requested env k (pre ++ [s])) m.acl) ∧ ∀ s ∈ tr, UpdatesAdd env s := by
  obtain ⟨-, hall⟩ := acl_serial (aclState_empty env) hr
  refine ⟨fun pre s hs => (hall pre s hs).1.acl, fun s hs => ?_⟩
  obtain ⟨pre, post, rfl⟩ := List.append_of_mem hs
  refine (hall pre s ⟨post, ?_⟩).2
  rw [List.append_assoc, List.singleton_append]

/-! A list in two spellings -/

def listingUpload : Call := .upload (exampleId 7) threeBytes .AVATAR none (some [exampleId 6])

def uploadedListing : ServiceServed := servedIn World.empty listingUpload

def sharedAfterUpload : ServiceServed :=
  servedIn uploadedListing.done.world (.share (exampleId 1) (exampleId 7) [exampleId 8])

theorem exampleEnv_uuidIn : exampleEnv.uuidIn = exampleUuidIn := rfl

theorem exampleEnv_canonical (i : Fin 10) : exampleEnv.uuidIn (exampleId i) = some (exampleId i) := by
  rw [exampleEnv_uuidIn]
  exact exampleId_canonical i

theorem acl_is_union_after_share : AclOf (exampleId 7)
    (Requested exampleEnv (exampleId 1) [uploadedListing, sharedAfterUpload])
    [exampleId 6, exampleId 8] := by
  have hlisted : ∀ i, exampleId i ≠ "" ∧ ∃ v, exampleEnv.uuidIn (exampleId i) = some v :=
    fun i => ⟨by revert i; decide +kernel, exampleId i, exampleEnv_canonical i⟩
  have hcanon (i : Fin 10) : ∀ uid ∈ [exampleId i], exampleEnv.uuidIn uid = some uid := by
    intro uid huid
    rw [List.mem_singleton.mp huid]
    exact exampleEnv_canonical i
  have hrun : (service exampleEnv).Serial (fun u l => SharingCalls u l ∧ ListsUuids exampleEnv l ∧
      SpellsApart exampleEnv u l) World.empty
      ([] ++ [uploadedListing] ++ [sharedAfterUpload]) sharedAfterUpload.done.world := by
    refine .call (.call (.refl _) ⟨trivial, fun uid huid => ?_, fun m _ => ?_, fun o owner ho hu => ?_⟩)
      ⟨trivial, fun uid huid => ?_, fun m _ => ?_, fun o owner ho => ho.elim⟩
    · rw [List.mem_singleton.mp huid]
      exact hlisted 6
    · exact spelledApart_of_canonical rfl (hcanon 6)
    · obtain ⟨rfl, -⟩ := ho
      refine spelledApart_of_canonical ?_ (hcanon 6)
      exact Option.some.inj ((exampleEnv_canonical 7).symm.trans hu)
    · rw [List.mem_singleton.mp huid]
      exact hlisted 8
    · exact spelledApart_of_canonical rfl (hcanon 8)
  have hrow : (sharedAfterUpload.done.world.media.get (exampleId 1)).map
      (fun m => (m.ownerId, m.acl)) = some (exampleId 7, [exampleId 6, exampleId 8]) := by
    decide +kernel
  obtain ⟨m, hm, hacl⟩ := Option.map_eq_some_iff.mp hrow
  have h := (acl_is_union exampleEnv _ _ hrun).1 [uploadedListing] sharedAfterUpload
    (List.prefix_refl _) (exampleId 1) m hm
  rw [(Prod.mk.inj hacl).1, (Prod.mk.inj hacl).2] at h
  exact h

def lowerCase (s : String) : String := String.ofList (s.toList.map Char.toLower)

theorem lowerCase_of_canonical {s u : String} (h : exampleEnv.uuidIn s = some u) :
    lowerCase u = u := by
  rw [exampleEnv_uuidIn] at h
  unfold exampleUuidIn at h
  split at h
  · next hs =>
    obtain rfl := Option.some.inj h
    have hall := List.all_eq_true.mp (Bool.and_eq_true_iff.mp hs).2
    have hmap : s.toList.map Char.toLower = s.toList := by
      refine (List.map_congr_left fun c hc => ?_).trans (List.map_id _)
      exact of_decide_eq_true (hall c hc)
    rw [lowerCase, hmap, String.ofList_toList]
  · cases h

/-- The same deployment, where Postgres reads a uuid in either case. -/
def eitherCaseEnv : Env := { exampleEnv with
  uuidIn s := exampleEnv.uuidIn (lowerCase s)
  uuidIn_canonical s u h := by
    rw [lowerCase_of_canonical h]
    exact exampleEnv.uuidIn_canonical _ _ h
  randomUUID_canonical n := by
    rw [lowerCase_of_canonical (exampleEnv.randomUUID_canonical n)]
    exact exampleEnv.randomUUID_canonical n }

/-- A user listed twice, once in upper case. -/
def listingTwice : Call := .upload (exampleId 7) threeBytes .AVATAR none
  (some [exampleId 8, "A0000000-0000-4000-8000-000000000008"])

def uploadedTwice : ServiceServed :=
  ⟨listingTwice, World.empty, (service eitherCaseEnv).serve listingTwice World.empty⟩

/-- The user is stored twice. -/
theorem listed_twice_stored_twice :
    ¬ ∀ tr w, (service eitherCaseEnv).Serial (fun u l => SharingCalls u l ∧
      ListsUuids eitherCaseEnv l) World.empty tr w →
      (∀ pre s, pre ++ [s] <+: tr → ∀ k m, s.done.world.media.get k = some m →
        AclOf m.ownerId (Requested eitherCaseEnv k (pre ++ [s])) m.acl) ∧
      ∀ s ∈ tr, UpdatesAdd eitherCaseEnv s := by
  intro hall
  have hrun : (service eitherCaseEnv).Serial (fun u l => SharingCalls u l ∧
      ListsUuids eitherCaseEnv l) World.empty ([] ++ [uploadedTwice]) uploadedTwice.done.world := by
    refine .call (.refl _) ⟨trivial, fun uid huid => ?_⟩
    rcases List.mem_cons.mp huid with rfl | huid
    · exact ⟨by decide +kernel, exampleId 8, by decide +kernel⟩
    · rw [List.mem_singleton.mp huid]
      exact ⟨by decide, exampleId 8, by decide +kernel⟩
  have hrow : (uploadedTwice.done.world.media.get (exampleId 1)).map Media.acl =
      some [exampleId 8, exampleId 8] := by
    decide +kernel
  obtain ⟨m, hm, hacl⟩ := Option.map_eq_some_iff.mp hrow
  have h := ((hall _ _ hrun).1 [] uploadedTwice (List.prefix_refl _) (exampleId 1) m hm).nodup
  rw [hacl] at h
  exact absurd h (by decide)

end WhisprMedia
