import WhisprMedia.AclGrants
import WhisprMedia.ReachableStores
import WhisprMedia.RlsPolicies
import WhisprMedia.SerialService
import WhisprMedia.SerialTraces

/-! The UPDATEs on `media` that the service issues, against the policy that lets only the owner
write: whether each reaches the row that it addresses. -/
namespace Keyed.Table

variable {κ ρ : Type} [DecidableEq κ] {key : ρ → κ}

/-- At most the row with the key is counted. -/
theorem countP_key {t : Table key} {k : κ} {r : ρ} (h : t.get k = some r) (p : ρ → Bool) :
    t.rows.countP (fun x => key x = k && p x) = if p r then 1 else 0 := by
  obtain ⟨hr, rfl⟩ := get_some.mp h
  obtain ⟨pre, post, hrows⟩ := List.append_of_mem hr
  have hnodup := t.nodup
  rw [hrows, List.map_append, List.map_cons, List.nodup_append] at hnodup
  obtain ⟨-, hpost, hpre⟩ := hnodup
  have hzero (l : List ρ) (hl : ∀ x ∈ l, key x ≠ key r) :
      l.countP (fun x => key x = key r && p x) = 0 := by
    rw [List.countP_eq_zero]
    intro x hx
    simp [hl x hx]
  rw [hrows, List.countP_append, List.countP_cons, hzero pre, hzero post]
  · simp
  · intro x hx hkey
    exact (List.nodup_cons.mp hpost).1 (hkey ▸ List.mem_map_of_mem hx)
  · intro x hx hkey
    exact hpre _ (List.mem_map_of_mem hx) _ List.mem_cons_self hkey

end Keyed.Table

namespace WhisprMedia
open Awaiting Keyed MediaService QuotaService

/-- The UPDATEs on `media`: the user they run as, and the row they address. -/
def Cmd.update? : Cmd → Option (String × String)
  | .updateSharedWith user id _ | .softDelete user id | .updateSignedUrlExpiry user id _ =>
    some (user, id)
  | _ => none

/-- The columns that the policies read. -/
def Media.rlsRow (m : Media) : RlsRow := ⟨m.ownerId, m.context, m.sharedWith.map (·.map some)⟩

/-- How many rows an UPDATE reaches. -/
def affectedRows (env : Env) (w : World) (user id : String) : ℕ :=
  w.media.rows.countP fun m =>
    env.uuidIn id = some m.id && (mediaSecurity env (some user)).updatable m.rlsRow

/-- The row holds what an UPDATE has set. -/
def Cmd.Wrote (env : Env) : Cmd → Media → Prop
  | .updateSharedWith _ _ sharedWith, m => env.uuidArrayIn sharedWith = some m.sharedWith
  | .softDelete _ _, m => m.isActive = false
  | .updateSignedUrlExpiry _ _ signedUrlExpiresAt, m => m.signedUrlExpiresAt = some signedUrlExpiresAt
  | _, _ => True

/-- An UPDATE that has not failed has reached the row it addresses and no other, and the row holds
what was written. -/
def TookEffect (env : Env) (c : Cmd) (w : World) : Prop :=
  ∀ a ∈ c.update?, (env.exec c w).1.isOk = true → affectedRows env w a.1 a.2 = 1 ∧
    ∃ m, env.uuidIn a.2 = some m.id ∧ (env.exec c w).2.media.get m.id = some m ∧ c.Wrote env m

section
variable {env : Env} {w : World} {user id : String} {m : Media}

theorem affectedRows_eq (hid : env.uuidIn id = some m.id) (hm : w.media.get m.id = some m) {u : String}
    (hu : env.uuidIn user = some u) :
    affectedRows env w user id = if m.ownerId = u then 1 else 0 := by
  have hcount := Table.countP_key hm fun r => (mediaSecurity env (some user)).updatable r.rlsRow
  have hkey : (fun r : Media => decide (env.uuidIn id = some r.id) &&
      (mediaSecurity env (some user)).updatable r.rlsRow) = fun r => decide (r.id = m.id) &&
      (mediaSecurity env (some user)).updatable r.rlsRow := by
    funext r
    rw [hid]
    simp only [Option.some.injEq, eq_comm]
  unfold affectedRows
  rw [hkey, hcount]
  simp only [updatable_iff_owner hu, Media.rlsRow]

/-- The owner's UPDATEs take effect. -/
theorem tookEffect_of_owner {c : Cmd} (hc : c.update? = some (user, id))
    (hid : env.uuidIn id = some m.id) (hm : w.media.get m.id = some m)
    (ho : env.uuidIn user = some m.ownerId) : TookEffect env c w := by
  intro a ha hok
  obtain rfl := Option.some.inj (hc.symm.trans ha)
  refine ⟨by rw [affectedRows_eq hid hm ho, if_pos rfl], ?_⟩
  cases c <;> simp only [Cmd.update?, Option.some.injEq, Prod.mk.injEq, reduceCtorEq] at hc
  case updateSharedWith user' id' l =>
    obtain ⟨rfl, rfl⟩ := hc
    cases he : env.exec (.updateSharedWith user' id' l) w with
    | mk r w' =>
      rw [he] at hok
      cases r with
      | error e => cases hok
      | ok u =>
        obtain ⟨s, hs, hrow⟩ := exec_updateSharedWith he
        exact ⟨{ m with sharedWith := s }, hid, hrow m hid hm ho, hs⟩
  case softDelete user' id' =>
    obtain ⟨rfl, rfl⟩ := hc
    cases he : env.exec (.softDelete user' id') w with
    | mk r w' =>
      rw [he] at hok
      cases r with
      | error e => cases hok
      | ok u => exact ⟨{ m with isActive := false }, hid, exec_softDelete he (m := m) hid hm ho, rfl⟩
  case updateSignedUrlExpiry user' id' t =>
    obtain ⟨rfl, rfl⟩ := hc
    refine ⟨{ m with signedUrlExpiresAt := some t }, hid, ?_, rfl⟩
    simp only [Env.exec, hid, ho, get_updateOwned, if_true, hm, Option.map_some]

/-- An UPDATE of somebody else's row reaches nothing. -/
theorem not_tookEffect_of_other {c : Cmd} (hc : c.update? = some (user, id))
    (hok : (env.exec c w).1.isOk = true) {u : String} (hu : env.uuidIn user = some u)
    (hid : env.uuidIn id = some m.id) (hm : w.media.get m.id = some m) (ho : m.ownerId ≠ u) :
    ¬ TookEffect env c w := by
  intro h
  obtain ⟨hcount, -⟩ := h (user, id) hc hok
  rw [affectedRows_eq hid hm hu, if_neg ho] at hcount
  cases hcount

/-! The calls -/

/-- The families of the UPDATEs. -/
def Family.updatesMedia : Family → Bool
  | .mediaExpiry | .mediaAcl | .mediaDelete => true
  | _ => false

theorem tookEffect_of_family {c : Cmd} (h : c.family.updatesMedia = false) : TookEffect env c w := by
  intro a ha
  cases c <;> first | exact absurd h (show ¬ (true = false) by decide) | cases ha

/-- Run alone in the world, the program issues UPDATEs that take effect. -/
abbrev Effective (env : Env) {α : Type} (x : Svc α) (w : World) (Q : α → World → Prop) : Prop :=
  ProgE.Issuing env.exec (TookEffect env) x w Q

variable {α β : Type}

theorem effective_touches {F : List Family} {x : Svc α} (hx : Touches F x)
    (hF : ∀ f ∈ F, f.updatesMedia = false) : Effective env x w fun _ _ => True :=
  ProgE.issuing_of_issues (I := fun _ => True) hx.issues trivial
    fun _ _ hc _ => ⟨tookEffect_of_family (hF _ hc), trivial⟩

/-- The same where dedup entries are left alone. -/
theorem effective_stores {F : List Family} {x : Svc α} (hx : Touches F x)
    (hF : ∀ f ∈ F, f.updatesMedia = false ∧ f ≠ .dedup) (hw : MediaStores env w) :
    Effective env x w fun _ => MediaStores env := by
  refine ProgE.issuing_of_issues (I := MediaStores env) hx.issues hw fun c u hc hu => ?_
  refine ⟨tookEffect_of_family (hF _ hc).1, mediaStores_exec hu ?_⟩
  rintro key i ttl rfl
  exact (hF _ hc).2 rfl

theorem effective_await {c : Cmd} {Q : c.Value → World → Prop} (hP : TookEffect env c w)
    (hQ : ∀ v u, env.exec c w = (.ok v, u) → Q v u) : Effective env (await c) w Q := by
  refine ProgE.issuing_issue hP fun v hv => ?_
  refine hQ v _ (Prod.ext ?_ rfl)
  cases hr : (env.exec c w).1 with
  | ok v' =>
    rw [hr] at hv
    exact congrArg Except.ok (Except.ok.inj hv)
  | error e =>
    rw [hr] at hv
    cases hv

theorem effective_sync {x : Except Err α} {Q : α → World → Prop} (hQ : ∀ a, x = .ok a → Q a w) :
    Effective env (sync x) w Q := by
  cases x with
  | ok a => exact ProgE.issuing_pure (hQ a rfl)
  | error e => exact ProgE.issuing_throw e

/-- A lookup changes nothing, and finds a row. -/
theorem effective_findMedia : Effective env (await (.findMedia user id)) w fun r w' => w' = w ∧
    ∀ media, r = some media → (∃ u, env.uuidIn user = some u) ∧ env.uuidIn id = some media.id ∧
      w.media.get media.id = some media := by
  refine effective_await (tookEffect_of_family rfl) fun r u he => ?_
  have hu : u = w := by
    have h := congrArg Prod.snd he
    simp only [Env.exec] at h
    split at h <;> exact h.symm
  refine ⟨hu, ?_⟩
  rintro media rfl
  obtain ⟨-, u, hu, hid, hget, -⟩ := exec_findMedia he rfl
  exact ⟨⟨u, hu⟩, hid, hget⟩

theorem effective_findActive : Effective env (findActive id user) w fun media w' => w' = w ∧
    (∃ u, env.uuidIn user = some u) ∧ env.uuidIn id = some media.id ∧
      w.media.get media.id = some media := by
  refine ProgE.Issuing.bind effective_findMedia fun r u h => ?_
  cases r with
  | none => exact ProgE.issuing_throw _
  | some media => exact ProgE.issuing_pure ⟨h.1, h.2 media rfl⟩

/-- After `enforceOwner`, the requester is the owner also as a uuid. -/
theorem effective_enforceOwner (hw : MediaStores env w) {media : Media}
    (hm : w.media.get media.id = some media) :
    Effective env (sync (enforceOwner media id user)) w fun _ w' => w' = w ∧
      env.uuidIn user = some media.ownerId := by
  refine effective_sync fun a ha => ⟨rfl, ?_⟩
  have howner := enforceOwner_eq_ok.mp ha
  rw [← howner]
  exact (hw.canonical _ _ hm).ownerId

theorem effective_share (hw : MediaStores env w) (uids : List String) :
    Effective env (share id user uids) w fun _ _ => True := by
  refine ProgE.Issuing.bind effective_findActive fun media u h => ?_
  obtain ⟨rfl, -, hid, hm⟩ := h
  refine ProgE.Issuing.bind (effective_enforceOwner hw hm) fun _ u' h' => ?_
  obtain ⟨rfl, ho⟩ := h'
  dsimp only
  split
  · exact ProgE.issuing_pure trivial
  · refine ProgE.Issuing.bind (Q := fun _ _ => True)
      (effective_await (tookEffect_of_owner rfl hid hm ho) fun _ _ _ => trivial) fun _ u'' _ => ?_
    refine ProgE.Issuing.bind (Q := fun _ _ => True)
      (effective_await (tookEffect_of_family rfl) fun _ _ _ => trivial) fun _ _ _ => ?_
    exact ProgE.issuing_pure trivial

theorem effective_delete (hw : MediaStores env w) : Effective env (delete id user) w fun _ _ => True := by
  refine ProgE.Issuing.bind effective_findActive fun media u h => ?_
  obtain ⟨rfl, -, hid, hm⟩ := h
  refine ProgE.Issuing.bind (effective_enforceOwner hw hm) fun _ u' h' => ?_
  obtain ⟨rfl, ho⟩ := h'
  refine ProgE.Issuing.bind (Q := fun _ _ => True)
    (effective_await (tookEffect_of_owner rfl hid hm ho) fun _ _ _ => trivial) fun _ u'' _ => ?_
  exact effective_touches (removeDeleted_touches id user media) (by decide)

theorem effective_mergeSharedWith {existing : Media} (hw : MediaStores env w)
    (hm : w.media.get existing.id = some existing) (ho : env.uuidIn user = some existing.ownerId)
    (sharedWith : Option (List String)) :
    Effective env (mergeSharedWith user existing sharedWith) w fun _ _ => True := by
  unfold mergeSharedWith
  dsimp only
  split
  · refine ProgE.Issuing.bind (Q := fun _ _ => True) (effective_await
      (tookEffect_of_owner rfl (hw.canonical _ _ hm).id hm ho) fun _ _ _ => trivial) fun _ u _ => ?_
    exact effective_await (tookEffect_of_family rfl) fun _ _ _ => trivial
  · exact ProgE.issuing_pure trivial

/-- A duplicate is the uploader's own row. -/
theorem effective_findDuplicate {ownerId : String} {context : MediaContext} {digest : List (Fin 16)}
    (hw : MediaStores env w) :
    Effective env (findDuplicate ownerId (dedupKey ownerId context digest)) w fun r w' =>
      MediaStores env w' ∧ ∀ existing, r = some existing →
        w'.media.get existing.id = some existing ∧ env.uuidIn ownerId = some existing.ownerId := by
  refine ProgE.Issuing.bind (Q := fun r w' => w' = w ∧ r = w.dedupCache (dedupKey ownerId context digest))
    (effective_await (tookEffect_of_family rfl) fun r u he => ?_) fun r u h => ?_
  · obtain ⟨hr, rfl⟩ := Prod.mk.inj he
    exact ⟨rfl, (Except.ok.inj hr).symm⟩
  · obtain ⟨rfl, rfl⟩ := h
    split
    · next id hid =>
      obtain ⟨hentry, -⟩ := Option.filter_eq_some_iff.mp hid
      obtain ⟨row, hrow, ho⟩ := hw.dedup ownerId context digest id hentry
      refine ProgE.Issuing.mono effective_findMedia fun r w' h => ?_
      obtain ⟨rfl, hfound⟩ := h
      refine ⟨hw, fun existing hr => ?_⟩
      obtain ⟨-, hid', hget⟩ := hfound existing hr
      -- the entry holds the id as the row spells it
      have hcanon : env.uuidIn id = some id := media_id hrow ▸ (hw.canonical _ _ hrow).id
      obtain rfl : id = existing.id := Option.some.inj (hcanon.symm.trans hid')
      obtain rfl := Option.some.inj (hrow.symm.trans hget)
      exact ⟨hget, ho⟩
    · refine ProgE.issuing_pure ⟨hw, fun existing hr => ?_⟩
      cases hr

theorem effective_uploadHeld (hw : MediaStores env w) (ownerId : String) (file : File)
    (context : MediaContext) (thumbnailFile : Option File) (sharedWith : Option (List String)) :
    Effective env (uploadHeld env ownerId file context thumbnailFile sharedWith) w
      fun _ _ => True := by
  refine ProgE.Issuing.bind (effective_stores (authorizeGroupIconUpload_touches env context ownerId)
    (by decide) hw) fun _ w₁ hw₁ => ?_
  refine ProgE.Issuing.bind (effective_stores (enforceQuota_touches ownerId _) (by decide) hw₁)
    fun _ w₂ hw₂ => ?_
  refine ProgE.Issuing.bind (effective_stores (validateFile_touches env file context) (by decide) hw₂)
    fun _ w₃ hw₃ => ?_
  refine ProgE.Issuing.bind (effective_findDuplicate hw₃) fun duplicate w₄ h₄ => ?_
  cases duplicate with
  | some existing =>
    obtain ⟨hget, ho⟩ := h₄.2 existing rfl
    refine ProgE.Issuing.bind (effective_mergeSharedWith h₄.1 hget ho sharedWith) fun _ w₅ _ => ?_
    exact effective_touches (buildUploadResponse_touches env existing) (by decide)
  | none =>
    refine ProgE.Issuing.bind (effective_touches (storeNew_touches env ownerId file context
      thumbnailFile sharedWith) (by decide)) fun media w₅ _ => ?_
    refine ProgE.Issuing.bind (Q := fun _ _ => True)
      (effective_await (tookEffect_of_family rfl) fun _ _ _ => trivial) fun _ w₆ _ => ?_
    refine ProgE.Issuing.bind (effective_touches (recordUpload_touches ownerId _) (by decide))
      fun _ w₇ _ => ?_
    exact effective_touches (buildUploadResponse_touches env media) (by decide)

theorem effective_upload (hw : MediaStores env w) (ownerId : String) (file : File)
    (context : MediaContext) (thumbnailFile : Option File) (sharedWith : Option (List String)) :
    Effective env (upload env ownerId file context thumbnailFile sharedWith) w fun _ _ => True := by
  refine ProgE.Issuing.bind (effective_stores (acquireSemaphore_touches ownerId) (by decide) hw)
    fun _ w₁ hw₁ => ?_
  refine ProgE.Issuing.ensuring (effective_uploadHeld hw₁ ownerId file context thumbnailFile
    sharedWith) fun u => ?_
  exact effective_touches (releaseSemaphore_touches ownerId) (by decide)

/-- Every call but `getBlob` issues UPDATEs that take effect. -/
theorem effective_handle (hw : MediaStores env w) {x : Call}
    (hx : ∀ id requesterId, x ≠ .getBlob id requesterId) :
    Effective env (handle env x) w fun _ _ => True := by
  cases x with
  | upload ownerId file context thumbnailFile sharedWith =>
    exact ProgE.Issuing.map (effective_upload hw ownerId file context thumbnailFile sharedWith)
      fun _ _ _ => trivial
  | share id requesterId uids =>
    exact ProgE.Issuing.map (effective_share hw uids) fun _ _ _ => trivial
  | delete id requesterId => exact ProgE.Issuing.map (effective_delete hw) fun _ _ _ => trivial
  | getBlob id requesterId => exact absurd rfl (hx id requesterId)
  | _ =>
    exact effective_touches (handle_families env _) (by simp [Call.families, Family.updatesMedia])

/-! `getBlob` -/

theorem run_await_bind {c : Cmd} {v : c.Value} {u : World} {f : c.Value → Svc β}
    (hc : env.exec c w = (.ok v, u)) :
    Prog.trace env.exec (await c >>= f).run w = (c, w) :: Prog.trace env.exec (f v).run u ∧
    (Prog.run env.exec (await c >>= f).run w).result = (Prog.run env.exec (f v).run u).result ∧
    (Prog.run env.exec (await c >>= f).run w).world = (Prog.run env.exec (f v).run u).world := by
  have hresult : (Prog.run env.exec (await c).run w).result = .ok v := by
    show (env.exec c w).1.mapError Err.error = .ok v
    rw [hc]
    rfl
  have hworld : (Prog.run env.exec (await c).run w).world = u := by
    show (env.exec c w).2 = u
    rw [hc]
  have h := ProgE.run_bind_of_ok (f := f) hresult
  rw [hworld] at h
  exact h

/-- An expiry that is still to come is kept and returned. -/
theorem getOrGenerateSignedUrl_kept {t : ℤ} (h : unexpired m w.now = some t) :
    (∀ e ∈ Prog.trace env.exec (getOrGenerateSignedUrl env m user).run w, TookEffect env e.1 e.2) ∧
    (Prog.run env.exec (getOrGenerateSignedUrl env m user).run w).world = w ∧
    ∀ dto, (Prog.run env.exec (getOrGenerateSignedUrl env m user).run w).result = .ok dto →
      dto.expiresAt = t := by
  have hnow : env.exec .now w = (.ok w.now, w) := rfl
  unfold getOrGenerateSignedUrl
  rw [(run_await_bind hnow).1, (run_await_bind hnow).2.1, (run_await_bind hnow).2.2]
  dsimp only
  rw [h]
  refine ⟨fun e he => ?_, rfl, fun dto hdto => ?_⟩
  · rcases List.mem_cons.mp he with rfl | he
    · exact tookEffect_of_family rfl
    · obtain rfl := List.mem_singleton.mp he
      exact tookEffect_of_family rfl
  · rw [← Except.ok.inj hdto]

/-- Otherwise the new expiry is written as the requester, and returned. -/
theorem getOrGenerateSignedUrl_renewed {u : String} (hu : env.uuidIn user = some u)
    (hid : env.uuidIn m.id = some m.id) (h : unexpired m w.now = none) :
    ∃ t, (∀ e ∈ Prog.trace env.exec (getOrGenerateSignedUrl env m user).run w, TookEffect env e.1 e.2 ∨
        e = (.updateSignedUrlExpiry user m.id t, w)) ∧
      (.updateSignedUrlExpiry user m.id t, w) ∈
        Prog.trace env.exec (getOrGenerateSignedUrl env m user).run w ∧
      (Prog.run env.exec (getOrGenerateSignedUrl env m user).run w).world =
        (env.exec (.updateSignedUrlExpiry user m.id t) w).2 ∧
      ∀ dto, (Prog.run env.exec (getOrGenerateSignedUrl env m user).run w).result = .ok dto →
        dto.expiresAt = t := by
  have hnow : env.exec .now w = (.ok w.now, w) := rfl
  have hupdate (t : ℤ) : env.exec (.updateSignedUrlExpiry user m.id t) w =
      (.ok (), (env.exec (.updateSignedUrlExpiry user m.id t) w).2) := by
    simp only [Env.exec, hu, hid]
  refine ⟨w.now + env.SIGNED_URL_EXPIRY_SECONDS * 1000, ?_⟩
  unfold getOrGenerateSignedUrl
  rw [(run_await_bind hnow).1, (run_await_bind hnow).2.1, (run_await_bind hnow).2.2]
  dsimp only
  rw [h]
  dsimp only
  have hurl : env.exec (.presign m.storagePath env.SIGNED_URL_EXPIRY_SECONDS) w =
    (.ok ⟨m.storagePath, env.SIGNED_URL_EXPIRY_SECONDS⟩, w) := rfl
  unfold generatePresignedUrl
  rw [(run_await_bind hurl).1, (run_await_bind hurl).2.1, (run_await_bind hurl).2.2,
    (run_await_bind (hupdate _)).1, (run_await_bind (hupdate _)).2.1, (run_await_bind (hupdate _)).2.2]
  refine ⟨fun e he => ?_, by simp, rfl, fun dto hdto => ?_⟩
  · rcases List.mem_cons.mp he with rfl | he
    · exact Or.inl (tookEffect_of_family rfl)
    · rcases List.mem_cons.mp he with rfl | he
      · exact Or.inl (tookEffect_of_family rfl)
      · exact Or.inr (List.mem_singleton.mp he)
  · rw [← Except.ok.inj hdto]

/-- The lookup of a read leaves the world as it is. -/
theorem effective_findReadable : Effective env (findReadable id user) w fun media w' => w' = w ∧
    (∃ u, env.uuidIn user = some u) ∧ env.uuidIn id = some media.id ∧
      w.media.get media.id = some media := by
  refine ProgE.Issuing.bind effective_findActive fun media u h => ?_
  refine ProgE.Issuing.bind (Q := fun _ w' => w' = u) (effective_sync fun _ _ => rfl) fun _ w' hw' => ?_
  subst hw'
  exact ProgE.issuing_pure h

/-- A `getBlob` that returns is a lookup, which changes nothing, and then its URL. -/
theorem getBlob_returned {r : Reply}
    (hr : (Prog.run env.exec (handle env (.getBlob id user)).run w).result = .ok r) :
    ∃ media dto, r = .blobUrl dto ∧ (∃ u, env.uuidIn user = some u) ∧ env.uuidIn id = some media.id ∧
      w.media.get media.id = some media ∧
      (Prog.run env.exec (getOrGenerateSignedUrl env media user).run w).result = .ok dto ∧
      (Prog.run env.exec (handle env (.getBlob id user)).run w).world =
        (Prog.run env.exec (getOrGenerateSignedUrl env media user).run w).world ∧
      ((∀ e ∈ Prog.trace env.exec (handle env (.getBlob id user)).run w, TookEffect env e.1 e.2) ↔
        ∀ e ∈ Prog.trace env.exec (getOrGenerateSignedUrl env media user).run w,
          TookEffect env e.1 e.2) := by
  have hmap := ProgE.run_map (h := env.exec) (x := getBlob env id user) (f := Reply.blobUrl) (w := w)
  have hread := @effective_findReadable env w user id
  have hbody : handle env (.getBlob id user) = Reply.blobUrl <$> getBlob env id user := rfl
  rw [hbody, hmap.2.1] at hr
  rw [hbody, hmap.1, hmap.2.2]
  cases hfind : (Prog.run env.exec (findReadable id user).run w).result with
  | error e =>
    have herror : (Prog.run env.exec (getBlob env id user).run w).result = .error e :=
      ProgE.run_bind_of_error hfind
    rw [herror] at hr
    cases hr
  -- the reply and the UPDATEs are those of the second part
  | ok media =>
    obtain ⟨hworld, hu, hid, hget⟩ := hread.returned media hfind
    obtain ⟨htrace, hresult, hend⟩ := ProgE.run_bind_of_ok
      (f := fun media => getOrGenerateSignedUrl env media user) hfind
    rw [hworld] at htrace hresult hend
    have hget' : getBlob env id user =
      findReadable id user >>= fun media => getOrGenerateSignedUrl env media user := rfl
    rw [hget'] at hr ⊢
    rw [hresult] at hr
    rw [htrace, hend]
    cases hdto : (Prog.run env.exec (getOrGenerateSignedUrl env media user).run w).result with
    | error e =>
      rw [hdto] at hr
      cases hr
    | ok dto =>
      rw [hdto] at hr
      refine ⟨media, dto, (Except.ok.inj hr).symm, hu, hid, hget, hdto, rfl, ?_⟩
      constructor
      · exact fun h e he => h e (List.mem_append_right _ he)
      · intro h e he
        rcases List.mem_append.mp he with he | he
        · exact hread.issued e he
        · exact h e he

end

/-- A reader who is not the owner asks for the URL of a media whose expiry is missing or past. -/
def RenewsForOther (env : Env) (w : World) : Call → Prop
  | .getBlob id requesterId => ∃ m, env.uuidIn id = some m.id ∧ w.media.get m.id = some m ∧
      env.uuidIn requesterId ≠ some m.ownerId ∧ unexpired m w.now = none
  | _ => False

/-- The expiry that `getBlob` has returned is stored. -/
def ExpiryStored (env : Env) (x : Call) (r : Reply) (w : World) : Prop :=
  ∀ id requesterId dto, x = .getBlob id requesterId → r = .blobUrl dto → ∃ m,
    env.uuidIn id = some m.id ∧ w.media.get m.id = some m ∧ m.signedUrlExpiresAt = some dto.expiresAt

/-- In a state that any requests have led to, a call that returns has issued only UPDATEs that reach
their row, unless it renews the URL of a media for somebody else. -/
theorem updates_take_effect (env : Env) (p : ServicePool)
    (hp : (service env).Runs (fun _ _ => True) ⟨World.empty, []⟩ p) (x : Call) (r : Reply)
    (hr : ((service env).serve x p.world).result = .ok r) :
    ((∀ e ∈ Prog.trace env.exec (handle env x).run p.world, TookEffect env e.1 e.2) ∧
      ExpiryStored env x r ((service env).serve x p.world).world) ↔
    ¬ RenewsForOther env p.world x := by
  have hstores := mediaStores_reachable hp
  by_cases hx : ∀ id requesterId, x ≠ .getBlob id requesterId
  · have hnot : ¬ RenewsForOther env p.world x := by
      cases x <;> first | exact id | exact absurd rfl (hx _ _)
    refine iff_of_true ⟨(effective_handle hstores hx).issued, ?_⟩ hnot
    exact fun id requesterId _ hcall _ => absurd hcall (hx id requesterId)
  · obtain ⟨id, requesterId, rfl⟩ : ∃ id requesterId, x = .getBlob id requesterId := by
      simpa only [not_forall, not_not] using hx
    obtain ⟨media, dto, rfl, ⟨u, hu⟩, hid, hget, hdto, hworld, htrace⟩ := getBlob_returned hr
    have hcanon := (hstores.canonical _ _ hget).id
    have hserve : ((service env).serve (.getBlob id requesterId) p.world).world =
        (Prog.run env.exec (getOrGenerateSignedUrl env media requesterId).run p.world).world := hworld
    have hrow {m : Media} (hm : env.uuidIn id = some m.id) (hg : p.world.media.get m.id = some m) :
        m = media := by
      have hids := Option.some.inj (hm.symm.trans hid)
      rw [hids, hget] at hg
      exact (Option.some.inj hg).symm
    rw [htrace, hserve]
    cases hexp : unexpired media p.world.now with
    | some t =>
      -- the stored expiry is still to come
      obtain ⟨heffects, hsame, hreturned⟩ :=
        @getOrGenerateSignedUrl_kept env p.world requesterId media _ hexp
      have hnot : ¬ RenewsForOther env p.world (.getBlob id requesterId) := by
        rintro ⟨m, hm, hg, -, hnone⟩
        rw [hrow hm hg, hexp] at hnone
        cases hnone
      refine iff_of_true ⟨heffects, ?_⟩ hnot
      intro _ _ dto' hcall hreply
      cases hcall
      cases hreply
      rw [hsame, hreturned dto hdto]
      exact ⟨media, hid, hget, (Option.filter_eq_some_iff.mp hexp).1⟩
    | none =>
      obtain ⟨t, heffects, hissued, hend, hreturned⟩ := getOrGenerateSignedUrl_renewed hu hcanon hexp
      by_cases ho : env.uuidIn requesterId = some media.ownerId
      · have hnot : ¬ RenewsForOther env p.world (.getBlob id requesterId) := by
          rintro ⟨m, hm, hg, hne, -⟩
          exact hne (hrow hm hg ▸ ho)
        have hupdate : TookEffect env (.updateSignedUrlExpiry requesterId media.id t) p.world :=
          tookEffect_of_owner rfl hcanon hget ho
        refine iff_of_true ⟨fun e he => ?_, ?_⟩ hnot
        · rcases heffects e he with h | rfl
          · exact h
          · exact hupdate
        · intro _ _ dto' hcall hreply
          cases hcall
          cases hreply
          have hok : (env.exec (.updateSignedUrlExpiry requesterId media.id t) p.world).1.isOk = true := by
            simp only [Env.exec, hu, hcanon]
            rfl
          obtain ⟨-, m, hm, hg, hwrote⟩ := hupdate (requesterId, media.id) rfl hok
          have hmid : media.id = m.id := Option.some.inj (hcanon.symm.trans hm)
          rw [hend, hreturned dto hdto]
          exact ⟨m, hmid ▸ hid, hg, hwrote⟩
      · -- the policy leaves the row of the other owner out
        have hne : media.ownerId ≠ u := fun h => ho (by rw [hu, h])
        have hok : (env.exec (.updateSignedUrlExpiry requesterId media.id t) p.world).1.isOk = true := by
          simp only [Env.exec, hu, hcanon]
          rfl
        refine iff_of_false (fun h => ?_) (not_not.mpr ⟨media, hid, hget, ho, hexp⟩)
        exact not_tookEffect_of_other rfl hok hu hcanon hget hne (h.1 _ hissued)

/-- The owner asks for the URL of his media. -/
theorem updates_take_effect_for_owner : ∃ (p : ServicePool) (r : Reply),
    ((service exampleEnv).serve (.getBlob (exampleId 1) (exampleId 7)) p.world).result = .ok r ∧
    (((∀ e ∈ Prog.trace exampleEnv.exec (handle exampleEnv (.getBlob (exampleId 1) (exampleId 7))).run
      p.world, TookEffect exampleEnv e.1 e.2) ∧
      ExpiryStored exampleEnv (.getBlob (exampleId 1) (exampleId 7)) r
        ((service exampleEnv).serve (.getBlob (exampleId 1) (exampleId 7)) p.world).world) ↔
    ¬ RenewsForOther exampleEnv p.world (.getBlob (exampleId 1) (exampleId 7))) := by
  have hplay : ((service exampleEnv).play (fun _ _ => True) ⟨World.empty, []⟩
      (.call sharedUpload :: List.replicate 20 (.step 0))).any fun p =>
        ((service exampleEnv).serve (.getBlob (exampleId 1) (exampleId 7)) p.world).result.isOk := by
    decide +kernel
  obtain ⟨p, hp, hok⟩ := (Option.any_eq_true _ _).mp hplay
  cases hr : ((service exampleEnv).serve (.getBlob (exampleId 1) (exampleId 7)) p.world).result with
  | error e =>
    rw [hr] at hok
    cases hok
  | ok r => exact ⟨p, r, hr, updates_take_effect exampleEnv p (System.runs_of_play hp) _ r hr⟩

/-- A user that a media is shared with asks for its URL: the expiry is written nowhere. -/
theorem update_reaches_no_row :
    ¬ ∀ (env : Env) (p : ServicePool) (x : Call) (r : Reply),
      (service env).Runs (fun _ _ => True) ⟨World.empty, []⟩ p →
      ((service env).serve x p.world).result = .ok r →
      ∀ e ∈ Prog.trace env.exec (handle env x).run p.world, TookEffect env e.1 e.2 := by
  intro h
  let x : Call := .getBlob (exampleId 1) (exampleId 6)
  have hplay : ((service exampleEnv).play (fun _ _ => True) ⟨World.empty, []⟩
      (.call sharedUpload :: List.replicate 20 (.step 0))).any fun p =>
        ((service exampleEnv).serve x p.world).result.isOk &&
          (Prog.trace exampleEnv.exec (handle exampleEnv x).run p.world).any fun e =>
            e.1.update?.any fun a => (exampleEnv.exec e.1 e.2).1.isOk &&
              affectedRows exampleEnv e.2 a.1 a.2 = 0 := by
    decide +kernel
  obtain ⟨p, hp, hat⟩ := (Option.any_eq_true _ _).mp hplay
  obtain ⟨hok, hissued⟩ := Bool.and_eq_true_iff.mp hat
  obtain ⟨e, he, hupdate⟩ := List.any_eq_true.mp hissued
  obtain ⟨a, ha, hreach⟩ := (Option.any_eq_true _ _).mp hupdate
  obtain ⟨hexec, hnone⟩ := Bool.and_eq_true_iff.mp hreach
  cases hr : ((service exampleEnv).serve x p.world).result with
  | error err =>
    rw [hr] at hok
    cases hok
  | ok r =>
    obtain ⟨hone, -⟩ := h exampleEnv p x r (System.runs_of_play hp) hr e he a ha hexec
    rw [of_decide_eq_true hnone] at hone
    cases hone

end WhisprMedia
