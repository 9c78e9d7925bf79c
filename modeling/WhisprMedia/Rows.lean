import WhisprMedia.ServiceRules

/-! What the commands can do to rows. A row of `media` is never removed, keeps what it was
inserted with, and is not made active again; a row of `user_quotas` is never removed and keeps
its limits. -/
namespace WhisprMedia
open Awaiting Keyed

/-- The same row later on: only its activity, its ACL and the expiry of its URL may differ. -/
structure Media.Becomes (m m' : Media) : Prop where
  eq : m' = { m with
    isActive := m'.isActive, sharedWith := m'.sharedWith, signedUrlExpiresAt := m'.signedUrlExpiresAt }
  active : m'.isActive = true → m.isActive = true

namespace Media.Becomes
variable {m m' m'' : Media}

theorem refl (m : Media) : m.Becomes m := ⟨rfl, fun h => h⟩

theorem trans (h : m.Becomes m') (h' : m'.Becomes m'') : m.Becomes m'' := by
  refine ⟨?_, fun ha => h.active (h'.active ha)⟩
  have h1 := h.eq
  have h2 := h'.eq
  rw [h1] at h2
  exact h2

theorem id_eq (h : m.Becomes m') : m'.id = m.id := by rw [h.eq]
theorem ownerId_eq (h : m.Becomes m') : m'.ownerId = m.ownerId := by rw [h.eq]
theorem context_eq (h : m.Becomes m') : m'.context = m.context := by rw [h.eq]
theorem storagePath_eq (h : m.Becomes m') : m'.storagePath = m.storagePath := by rw [h.eq]
theorem thumbnailPath_eq (h : m.Becomes m') : m'.thumbnailPath = m.thumbnailPath := by rw [h.eq]
theorem blobSize_eq (h : m.Becomes m') : m'.blobSize = m.blobSize := by rw [h.eq]

end Media.Becomes

/-- Every row of `w` is still there in `w'`. -/
def MediaLater (w w' : World) : Prop :=
  ∀ id m, w.media.get id = some m → ∃ m', w'.media.get id = some m' ∧ m.Becomes m'

theorem MediaLater.refl (w : World) : MediaLater w w :=
  fun _ m h => ⟨m, h, Media.Becomes.refl m⟩

theorem MediaLater.trans {w w' w'' : World} (h : MediaLater w w') (h' : MediaLater w' w'') :
    MediaLater w w'' := by
  intro id m hm
  obtain ⟨m', hm', hb⟩ := h id m hm
  obtain ⟨m'', hm'', hb'⟩ := h' id m' hm'
  exact ⟨m'', hm'', hb.trans hb'⟩

theorem MediaLater.of_eq {w w' : World} (h : w'.media = w.media) : MediaLater w w' :=
  fun _ m hm => ⟨m, h ▸ hm, Media.Becomes.refl m⟩

section Commands
variable {env : Env} {c : Cmd} {w w' : World} {user id : String}

theorem get_updateOwned {f : Media → Media} {hf : ∀ m, (f m).id = m.id} {k : String} :
    (w.updateOwned user id f hf).media.get k =
      if k = id then (w.media.get id).map fun m => if m.ownerId = user then f m else m
      else w.media.get k := by
  simp only [World.updateOwned, Table.get_modify]

/-- An UPDATE of one row leaves a row as it is, unless it names the row for its owner. -/
theorem updateOwned_cases {f : Media → Media} (hf : ∀ m, (f m).id = m.id) {k : String}
    {r : Option Media} (h : (w.updateOwned user id f hf).media.get k = r) :
    w.media.get k = r ∨
      ∃ m, id = k ∧ w.media.get k = some m ∧ m.ownerId = user ∧ r = some (f m) := by
  rw [get_updateOwned] at h
  by_cases hk : k = id
  · rw [if_pos hk, ← hk] at h
    cases hm : w.media.get k with
    | none =>
      rw [hm] at h
      exact Or.inl h
    | some m =>
      rw [hm, Option.map_some] at h
      by_cases ho : m.ownerId = user
      · rw [if_pos ho] at h
        exact Or.inr ⟨m, hk.symm, rfl, ho, h.symm⟩
      · rw [if_neg ho] at h
        exact Or.inl h
  · rw [if_neg hk] at h
    exact Or.inl h

/-- An INSERT that succeeds adds the row as Postgres reads it; one that fails does nothing. -/
theorem exec_saveMedia {media : Media} {r : Except String Unit}
    (h : env.exec (.saveMedia user media) w = (r, w')) :
    (∃ m, r = .ok () ∧ env.mediaIn w.now media = some m ∧ env.uuidIn user = some m.ownerId ∧
      w.media.get m.id = none ∧ w' = { w with media := w.media.insert m }) ∨
    (∃ e, r = .error e ∧ w' = w) := by
  simp only [Env.exec] at h
  split at h
  · next u m hu hm =>
    split at h
    · exact Or.inr ⟨_, (Prod.mk.inj h).1.symm, (Prod.mk.inj h).2.symm⟩
    · next ho =>
      split at h
      · exact Or.inr ⟨_, (Prod.mk.inj h).1.symm, (Prod.mk.inj h).2.symm⟩
      · next hg =>
        refine Or.inl ⟨m, (Prod.mk.inj h).1.symm, hm, ?_, by simpa using hg,
          (Prod.mk.inj h).2.symm⟩
        rw [not_not.mp ho, hu]
  · exact Or.inr ⟨_, (Prod.mk.inj h).1.symm, (Prod.mk.inj h).2.symm⟩

/-- The row that is stored for an entity. -/
theorem mediaIn_eq {now : Int} {m m' : Media} (h : env.mediaIn now m = some m') :
    env.uuidIn m.id = some m'.id ∧ env.uuidIn m.ownerId = some m'.ownerId ∧
      env.uuidArrayIn m.sharedWith = some m'.sharedWith ∧ m' = { m with
        id := m'.id, ownerId := m'.ownerId, sharedWith := m'.sharedWith, createdAt := now } := by
  simp only [Env.mediaIn, Option.bind_eq_bind, Option.bind_eq_some_iff, Option.pure_def,
    Option.some.injEq] at h
  obtain ⟨id, hid, owner, howner, acl, hacl, rfl⟩ := h
  exact ⟨hid, howner, hacl, rfl⟩

theorem get_insertMedia {m : Media} {k : String} (h : w.media.get m.id = none) :
    (w.media.insert m).get k = if k = m.id then some m else w.media.get k :=
  Table.get_insert h

theorem mediaLater_insert {m : Media} (h : w.media.get m.id = none) :
    MediaLater w { w with media := w.media.insert m } := by
  intro k m' hm
  refine ⟨m', ?_, Media.Becomes.refl m'⟩
  have hk : k ≠ m.id := fun hk => by simp [hk, h] at hm
  show (w.media.insert m).get k = some m'
  rw [get_insertMedia h, if_neg hk, hm]

theorem becomes_sharedWith (m : Media) (s : Option (List String)) :
    m.Becomes { m with sharedWith := s } := ⟨rfl, fun h => h⟩

theorem becomes_inactive (m : Media) : m.Becomes { m with isActive := false } :=
  ⟨rfl, fun h => absurd h (by simp)⟩

theorem becomes_signed (m : Media) (t : Int) :
    m.Becomes { m with signedUrlExpiresAt := some t } := ⟨rfl, fun h => h⟩

/-- What a command makes of the row of an id. -/
inductive MediaStep (env : Env) (c : Cmd) (w : World) (k : String) : Option Media → Prop
  | kept {r : Option Media} (same : w.media.get k = r) : MediaStep env c w k r
  | inserted {user : String} {media m : Media} (cmd : c = .saveMedia user media)
      (ok : (env.exec c w).1.isOk) (stored : env.mediaIn w.now media = some m)
      (owner : env.uuidIn user = some m.ownerId) (fresh : w.media.get k = none) (named : m.id = k) :
      MediaStep env c w k (some m)
  | shared {user id : String} {l s : Option (List String)} {m : Media}
      (cmd : c = .updateSharedWith user id l) (old : w.media.get k = some m)
      (owner : env.uuidIn user = some m.ownerId) (named : env.uuidIn id = some k)
      (acl : env.uuidArrayIn l = some s) : MediaStep env c w k (some { m with sharedWith := s })
  | removed {user id : String} {m : Media} (cmd : c = .softDelete user id)
      (old : w.media.get k = some m) (owner : env.uuidIn user = some m.ownerId)
      (named : env.uuidIn id = some k) : MediaStep env c w k (some { m with isActive := false })
  | signed {user id : String} {t : Int} {m : Media} (cmd : c = .updateSignedUrlExpiry user id t)
      (old : w.media.get k = some m) (owner : env.uuidIn user = some m.ownerId)
      (named : env.uuidIn id = some k) :
      MediaStep env c w k (some { m with signedUrlExpiresAt := some t })

theorem media_step {k : String} {r : Option Media} (h : (env.exec c w).2.media.get k = r) :
    MediaStep env c w k r := by
  by_cases hf : c.family.writesMedia = true
  · cases c <;> simp only [Cmd.family, Family.writesMedia, Bool.false_eq_true] at hf
    case saveMedia user media =>
      cases he : env.exec (.saveMedia user media) w with
      | mk a w' =>
        rw [he] at h
        rcases exec_saveMedia he with ⟨m, rfl, hm, ho, hn, rfl⟩ | ⟨e, rfl, rfl⟩
        · replace h : (w.media.insert m).get k = r := h
          rw [get_insertMedia hn] at h
          split at h
          · next hk =>
            subst h
            exact .inserted rfl (by rw [he]; rfl) hm ho (hk ▸ hn) hk.symm
          · exact .kept h
        · exact .kept h
    case updateSharedWith user id l =>
      simp only [Env.exec] at h
      split at h
      · next u i s hu hi hs =>
        rcases updateOwned_cases (fun _ => by rfl) h with same | ⟨m, rfl, hm, rfl, rfl⟩
        · exact .kept same
        · exact .shared rfl hm hu hi hs
      · exact .kept h
    case softDelete user id =>
      simp only [Env.exec] at h
      split at h
      · next u i hu hi =>
        rcases updateOwned_cases (fun _ => by rfl) h with same | ⟨m, rfl, hm, rfl, rfl⟩
        · exact .kept same
        · exact .removed rfl hm hu hi
      · exact .kept h
    case updateSignedUrlExpiry user id t =>
      simp only [Env.exec] at h
      split at h
      · next u i hu hi =>
        rcases updateOwned_cases (fun _ => by rfl) h with same | ⟨m, rfl, hm, rfl, rfl⟩
        · exact .kept same
        · exact .signed rfl hm hu hi
      · exact .kept h
  · rw [exec_media (by simpa using hf)] at h
    exact .kept h

theorem mediaLater_exec : MediaLater w (env.exec c w).2 := by
  intro k m hm
  generalize hr : (env.exec c w).2.media.get k = r
  cases media_step hr with
  | kept same => exact ⟨m, same.symm.trans hm, Media.Becomes.refl m⟩
  | inserted cmd ok stored owner fresh => exact absurd (hm.symm.trans fresh) (by simp)
  | shared cmd old =>
    obtain rfl := Option.some.inj (hm.symm.trans old)
    exact ⟨_, rfl, becomes_sharedWith m _⟩
  | removed cmd old =>
    obtain rfl := Option.some.inj (hm.symm.trans old)
    exact ⟨_, rfl, becomes_inactive m⟩
  | signed cmd old =>
    obtain rfl := Option.some.inj (hm.symm.trans old)
    exact ⟨_, rfl, becomes_signed m _⟩

/-- A row that is there after a command was there before, or the command has inserted it. -/
theorem media_before_exec {k : String} {m' : Media}
    (h : (env.exec c w).2.media.get k = some m') :
    (∃ m, w.media.get k = some m ∧ m.Becomes m') ∨
      ∃ user media, c = .saveMedia user media ∧ (env.exec c w).1.isOk ∧
        env.mediaIn w.now media = some m' ∧ env.uuidIn user = some m'.ownerId ∧
        w.media.get k = none ∧ m'.id = k := by
  cases media_step h with
  | kept same => exact Or.inl ⟨m', same, Media.Becomes.refl m'⟩
  | inserted cmd ok stored owner fresh named =>
    exact Or.inr ⟨_, _, cmd, ok, stored, owner, fresh, named⟩
  | shared cmd old => exact Or.inl ⟨_, old, becomes_sharedWith _ _⟩
  | removed cmd old => exact Or.inl ⟨_, old, becomes_inactive _⟩
  | signed cmd old => exact Or.inl ⟨_, old, becomes_signed _ _⟩

theorem exec_updateSharedWith {l : Option (List String)}
    (h : env.exec (.updateSharedWith user id l) w = (.ok (), w')) :
    ∃ s, env.uuidArrayIn l = some s ∧ ∀ m, env.uuidIn id = some m.id →
      w.media.get m.id = some m → env.uuidIn user = some m.ownerId →
        w'.media.get m.id = some { m with sharedWith := s } := by
  simp only [Env.exec] at h
  split at h
  · next u k s hu hk hs =>
    obtain ⟨-, rfl⟩ := Prod.mk.inj h
    refine ⟨s, hs, fun m hi hm ho => ?_⟩
    obtain rfl : k = m.id := Option.some.inj (hk.symm.trans hi)
    obtain rfl : u = m.ownerId := Option.some.inj (hu.symm.trans ho)
    rw [get_updateOwned, if_pos rfl, hm, Option.map_some, if_pos rfl]
  · exact absurd (Prod.mk.inj h).1 (by simp)

theorem exec_softDelete (h : env.exec (.softDelete user id) w = (.ok (), w')) {m : Media}
    (hi : env.uuidIn id = some m.id) (hm : w.media.get m.id = some m)
    (ho : env.uuidIn user = some m.ownerId) :
    w'.media.get m.id = some { m with isActive := false } := by
  simp only [Env.exec, hi, ho] at h
  obtain ⟨-, rfl⟩ := Prod.mk.inj h
  rw [get_updateOwned, if_pos rfl, hm, Option.map_some, if_pos rfl]

/-- The row that was read is still there, perhaps changed. -/
def LivesOn (media : Media) (w : World) : Prop :=
  ∃ m, w.media.get media.id = some m ∧ media.Becomes m

theorem LivesOn.later {media : Media} (h : LivesOn media w) (hl : MediaLater w w') :
    LivesOn media w' := by
  obtain ⟨m, hm, hb⟩ := h
  obtain ⟨m', hm', hb'⟩ := hl _ m hm
  exact ⟨m', hm', hb.trans hb'⟩

/-- The row is there, and is not active. -/
def Gone (id : String) (w : World) : Prop :=
  ∃ row, w.media.get id = some row ∧ row.isActive = false

theorem Gone.later (h : Gone id w) (hl : MediaLater w w') : Gone id w' := by
  obtain ⟨row, hrow, hinactive⟩ := h
  obtain ⟨row', hrow', hb⟩ := hl id row hrow
  refine ⟨row', hrow', ?_⟩
  by_contra hactive
  have hbefore := hb.active (by simpa using hactive)
  exact absurd (hbefore.symm.trans hinactive) (by simp)

/-! ACLs -/

/-- The users a row is shared with. -/
def Media.acl (m : Media) : List String := m.sharedWith.getD []

theorem mapM_mem {f : String → Option String} {l l' : List String} (h : l.mapM f = some l') :
    (∀ v ∈ l', ∃ uid ∈ l, f uid = some v) ∧ ∀ uid ∈ l, ∃ v ∈ l', f uid = some v := by
  induction l generalizing l' with
  | nil =>
    obtain rfl := Option.some.inj h
    simp
  | cons uid l ih =>
    rw [List.mapM_cons] at h
    simp only [Option.bind_eq_bind, Option.bind_eq_some_iff, Option.pure_def,
      Option.some.injEq] at h
    obtain ⟨v, hv, vs, hvs, rfl⟩ := h
    obtain ⟨hback, hforth⟩ := ih hvs
    constructor
    · intro x hx
      rcases List.mem_cons.mp hx with rfl | hx
      · exact ⟨uid, List.mem_cons_self, hv⟩
      · obtain ⟨u, hu, hux⟩ := hback x hx
        exact ⟨u, List.mem_cons_of_mem _ hu, hux⟩
    · intro u hu
      rcases List.mem_cons.mp hu with rfl | hu
      · exact ⟨v, List.mem_cons_self, hv⟩
      · obtain ⟨x, hx, hux⟩ := hforth u hu
        exact ⟨x, List.mem_cons_of_mem _ hx, hux⟩

/-- A stored ACL consists of the values of the ids that were passed. -/
theorem mem_uuidArrayIn {l s : Option (List String)} (h : env.uuidArrayIn l = some s) :
    (∀ v ∈ s.getD [], ∃ uid ∈ l.getD [], env.uuidIn uid = some v) ∧
      ∀ uid ∈ l.getD [], ∃ v ∈ s.getD [], env.uuidIn uid = some v := by
  cases l with
  | none =>
    obtain rfl := Option.some.inj h
    simp
  | some l =>
    obtain ⟨s', hs', rfl⟩ := Option.map_eq_some_iff.mp h
    exact mapM_mem hs'

/-- What becomes of an ACL in one command: it stays, or its owner's UPDATE replaces it. -/
theorem sharedWith_exec {k : String} {m m' : Media} (hm : w.media.get k = some m)
    (hm' : (env.exec c w).2.media.get k = some m') :
    m'.sharedWith = m.sharedWith ∨ ∃ user id l, c = .updateSharedWith user id l ∧
      env.uuidIn user = some m.ownerId ∧ env.uuidIn id = some k ∧
      env.uuidArrayIn l = some m'.sharedWith := by
  cases media_step hm' with
  | kept same =>
    obtain rfl := Option.some.inj (hm.symm.trans same)
    exact Or.inl rfl
  | inserted cmd ok stored owner fresh => exact absurd (hm.symm.trans fresh) (by simp)
  | shared cmd old owner named acl =>
    obtain rfl := Option.some.inj (hm.symm.trans old)
    exact Or.inr ⟨_, _, _, cmd, owner, named, acl⟩
  | removed cmd old | signed cmd old =>
    obtain rfl := Option.some.inj (hm.symm.trans old)
    exact Or.inl rfl

/-- The ids of a row are spelled as Postgres prints them. -/
structure Media.Canonical (env : Env) (m : Media) : Prop where
  id : env.uuidIn m.id = some m.id
  ownerId : env.uuidIn m.ownerId = some m.ownerId
  acl : ∀ v ∈ m.acl, env.uuidIn v = some v

def RowsCanonical (env : Env) (w : World) : Prop :=
  ∀ k m, w.media.get k = some m → m.Canonical env

theorem uuidArrayIn_canonical {l s : Option (List String)} (h : env.uuidArrayIn l = some s) :
    ∀ v ∈ s.getD [], env.uuidIn v = some v := by
  intro v hv
  obtain ⟨uid, -, huid⟩ := (mem_uuidArrayIn h).1 v hv
  exact env.uuidIn_canonical uid v huid

theorem rowsCanonical_exec (h : RowsCanonical env w) : RowsCanonical env (env.exec c w).2 := by
  intro k m' hm'
  rcases media_before_exec hm' with ⟨m, hm, hb⟩ | ⟨user, media, -, -, hin, -, -, -⟩
  · have hc := h k m hm
    refine ⟨hb.id_eq ▸ hc.id, hb.ownerId_eq ▸ hc.ownerId, fun v hv => ?_⟩
    rcases sharedWith_exec hm hm' with hs | ⟨user, id, l, -, -, -, hs⟩
    · refine hc.acl v ?_
      rwa [Media.acl, ← hs]
    · exact uuidArrayIn_canonical hs v hv
  · obtain ⟨hid, howner, hacl, -⟩ := mediaIn_eq hin
    exact ⟨env.uuidIn_canonical _ _ hid, env.uuidIn_canonical _ _ howner,
      uuidArrayIn_canonical hacl⟩

theorem media_id {k : String} {m : Media} (h : w.media.get k = some m) : m.id = k :=
  (Table.get_some.mp h).2

/-- A lookup changes nothing, also when it fails. -/
theorem findMedia_world {r : Except String (Option Media)}
    (h : env.exec (.findMedia user id) w = (r, w')) : w' = w := by
  simp only [Env.exec] at h
  split at h <;> exact (Prod.mk.inj h).2.symm

/-- A lookup answers with an active row that the user may see. -/
theorem exec_findMedia {m : Media} {r : Except String (Option Media)}
    (h : env.exec (.findMedia user id) w = (r, w')) (hr : r = .ok (some m)) :
    w' = w ∧ ∃ u, env.uuidIn user = some u ∧ env.uuidIn id = some m.id ∧
      w.media.get m.id = some m ∧ m.isActive = true ∧ rlsSelect u m = true := by
  simp only [Env.exec] at h
  split at h
  · next u i hu hi =>
    obtain ⟨rfl, rfl⟩ := Prod.mk.inj h
    obtain ⟨hget, hp⟩ := Option.filter_eq_some_iff.mp (Except.ok.inj hr)
    obtain ⟨hact, hsel⟩ := Bool.and_eq_true_iff.mp hp
    obtain rfl := media_id hget
    exact ⟨rfl, u, hu, hi, hget, hact, hsel⟩
  · obtain ⟨rfl, rfl⟩ := Prod.mk.inj h
    exact absurd hr (by simp)

end Commands

/-! Quotas -/

section Quotas
variable {env : Env} {c : Cmd} {w : World} {userId k : String}

theorem get_updateQuota {f : UserQuota → UserQuota} {hf : ∀ q, (f q).userId = q.userId} :
    (w.updateQuota userId f hf).quotas.get k =
      if k = userId then (w.quotas.get userId).map f else w.quotas.get k := by
  simp only [World.updateQuota, Table.get_modify]

theorem get_insertQuota : (w.quotas.insert (env.defaultQuota w userId)).get k =
    if k = userId then some ((w.quotas.get userId).getD (env.defaultQuota w userId))
    else w.quotas.get k := by
  cases hu : w.quotas.get userId with
  | some q =>
    have hkey : (w.quotas.get (env.defaultQuota w userId).userId).isSome = true := by
      show (w.quotas.get userId).isSome = true
      rw [hu]
      rfl
    rw [Table.insert_of_get hkey]
    split
    · next hk => rw [hk, hu]; rfl
    · rfl
  | none => exact Table.get_insert (by exact hu)

/-- What a command makes of the quota row of a user. -/
inductive QuotaStep (env : Env) (c : Cmd) (w : World) (k : String) : Option UserQuota → Prop
  | kept {r : Option UserQuota} (same : w.quotas.get k = r) : QuotaStep env c w k r
  | inserted {s : String} (cmd : c = .insertQuotaOrIgnore s) (user : env.uuidIn s = some k)
      (missing : w.quotas.get k = none) : QuotaStep env c w k (some (env.defaultQuota w k))
  | charged {s : String} {n : Int} {q : UserQuota} (cmd : c = .chargeQuota s n)
      (user : env.uuidIn s = some k) (old : w.quotas.get k = some q) :
      QuotaStep env c w k (some { q with
        storageUsed := q.storageUsed + n
        filesCount := q.filesCount + 1
        dailyUploads := q.dailyUploads + 1 })
  | released {s : String} {n : Int} {q : UserQuota} (cmd : c = .releaseQuota s n)
      (user : env.uuidIn s = some k) (old : w.quotas.get k = some q) :
      QuotaStep env c w k (some { q with
        storageUsed := max 0 (q.storageUsed - n)
        filesCount := max 0 (q.filesCount - 1) })
  | reset {q : UserQuota} (cmd : c = .resetDailyUploads) (old : w.quotas.get k = some q)
      (before : q.quotaDate < utcDay w.now) :
      QuotaStep env c w k (some { q with dailyUploads := 0, quotaDate := utcDay w.now })

/-- An UPDATE of the row of one user leaves the others as they are. -/
theorem updateQuota_cases {f : UserQuota → UserQuota} (hf : ∀ q, (f q).userId = q.userId)
    {r : Option UserQuota} (h : (w.updateQuota userId f hf).quotas.get k = r) :
    w.quotas.get k = r ∨ ∃ q, userId = k ∧ w.quotas.get k = some q ∧ r = some (f q) := by
  rw [get_updateQuota] at h
  by_cases hk : k = userId
  · rw [if_pos hk, ← hk] at h
    cases hq : w.quotas.get k with
    | none =>
      rw [hq] at h
      exact Or.inl h
    | some q =>
      rw [hq] at h
      exact Or.inr ⟨q, hk.symm, rfl, h.symm⟩
  · rw [if_neg hk] at h
    exact Or.inl h

theorem quota_step {r : Option UserQuota} (h : (env.exec c w).2.quotas.get k = r) :
    QuotaStep env c w k r := by
  by_cases hf : c.family.writesQuota = true ∨ c.family = .quotaLookup
  · cases c <;> simp only [Cmd.family, Family.writesQuota, Bool.false_eq_true, reduceCtorEq,
      or_self] at hf
    case findQuota s =>
      simp only [Env.exec] at h
      split at h <;> exact .kept h
    case insertQuotaOrIgnore s =>
      simp only [Env.exec] at h
      split at h
      · next u hu =>
        rw [get_insertQuota] at h
        split at h
        · next hk =>
          subst hk
          cases hq : w.quotas.get k with
          | some q =>
            rw [hq] at h
            exact .kept (hq.trans h)
          | none =>
            rw [hq] at h
            subst h
            exact .inserted rfl hu hq
        · exact .kept h
      · exact .kept h
    case chargeQuota s n =>
      simp only [Env.exec] at h
      split at h
      · next u hu =>
        rcases updateQuota_cases (fun _ => by rfl) h with same | ⟨q, rfl, hq, rfl⟩
        · exact .kept same
        · exact .charged rfl hu hq
      · exact .kept h
    case releaseQuota s n =>
      simp only [Env.exec] at h
      split at h
      · next u hu =>
        rcases updateQuota_cases (fun _ => by rfl) h with same | ⟨q, rfl, hq, rfl⟩
        · exact .kept same
        · exact .released rfl hu hq
      · exact .kept h
    case resetDailyUploads =>
      simp only [Env.exec, Table.get_mapRows] at h
      cases hq : w.quotas.get k with
      | none =>
        rw [hq] at h
        exact .kept (hq.trans h)
      | some q =>
        rw [hq, Option.map_some] at h
        subst h
        split
        · next hday => exact .reset rfl hq hday
        · exact .kept hq
  · rw [not_or] at hf
    rw [exec_quotas (by simpa using hf.1) hf.2] at h
    exact .kept h

/-- The same row later on: only what is counted and the day of the count may differ. -/
structure UserQuota.Becomes (q q' : UserQuota) : Prop where
  storageLimit : q'.storageLimit = q.storageLimit
  filesLimit : q'.filesLimit = q.filesLimit
  dailyUploadLimit : q'.dailyUploadLimit = q.dailyUploadLimit

theorem UserQuota.Becomes.refl (q : UserQuota) : q.Becomes q := ⟨rfl, rfl, rfl⟩

theorem quota_exec {q : UserQuota} (h : w.quotas.get k = some q) :
    ∃ q', (env.exec c w).2.quotas.get k = some q' ∧ q.Becomes q' := by
  generalize hr : (env.exec c w).2.quotas.get k = r
  cases quota_step hr with
  | kept same => exact ⟨q, same.symm.trans h, UserQuota.Becomes.refl q⟩
  | inserted cmd user missing => exact absurd (h.symm.trans missing) (by simp)
  | charged cmd user old | released cmd user old | reset cmd old =>
    obtain rfl := Option.some.inj (h.symm.trans old)
    exact ⟨_, rfl, rfl, rfl, rfl⟩

theorem quota_isSome_exec (h : (w.quotas.get k).isSome = true) :
    ((env.exec c w).2.quotas.get k).isSome = true := by
  obtain ⟨q, hq⟩ := Option.isSome_iff_exists.mp h
  obtain ⟨q', hq', -⟩ := @quota_exec env c w k q hq
  rw [hq']
  rfl

end Quotas

end WhisprMedia
