import WhisprMedia.FailingSteps
import WhisprMedia.StorageAlignment
import WhisprMedia.ExistenceProbes

/-! Deletes that fail midway. The lookup with which a delete begins sees active rows only, so once
the soft delete is committed no repetition gets past it: what the first attempt has left undone
stays undone. -/
namespace WhisprMedia
open Awaiting Keyed MediaService QuotaService StorageService

/-- The log has a release of a quota that takes effect. -/
def isRelease (fault : Cmd → Option Fault) : Cmd → Bool
  | .releaseQuota userId blobSize => TakesEffect fault (.releaseQuota userId blobSize)
  | _ => false

/-- How often a log releases a quota. -/
def releases (fault : Cmd → Option Fault) (log : ServiceLog) : ℕ :=
  log.countP fun e => isRelease fault e.1

/-- What a delete of the media is for, given how often it has released the quota. -/
structure DeleteCompleted (env : Env) (m : Media) (w w' : World) (released : ℕ) : Prop where
  inactive : ∃ r, w'.media.get m.id = some r ∧ r.isActive = false
  blob : w'.bucket m.storagePath = none
  thumbnail : ∀ path, truthy m.thumbnailPath = some path → w'.bucket path = none
  entry : ∀ s, env.uuidIn s = some m.id → w'.metaCache (metaKey s) = none
  quota : ∃ q, w.quotas.get m.ownerId = some q ∧
    w'.quotas.get m.ownerId = some (q.release m.blobSize)
  once : released = 1

/-- No step after the soft delete fails before it has taken effect, and only the last one after. -/
structure DeleteServed (fault : Cmd → Option Fault) (id requesterId : String) (m : Media) :
    Prop where
  blob : fault (.deleteObject m.storagePath) = none
  thumbnail : ∀ path, truthy m.thumbnailPath = some path → fault (.deleteObject path) = none
  entry : fault (.delMeta (metaKey id)) = none
  size : validateBlobSize (.int m.blobSize) = .ok ()
  quota : TakesEffect fault (.releaseQuota requesterId m.blobSize)

/-- The media is cached under no other spelling of its id than `id`. -/
def OnlyCachedAs (env : Env) (id : String) (m : Media) (w : World) : Prop :=
  ∀ s, env.uuidIn s = some m.id → s ≠ id → w.metaCache (metaKey s) = none

/-- A delete while dependencies fail. -/
def faultyDelete (env : Env) (fault : Cmd → Option Fault) (id requesterId : String) (w : World) :
    Prog.Done Cmd Cmd.Reply World (Except Err Unit) :=
  Prog.run (env.failing fault) (delete id requesterId).run w

/-- Repeated deletes with healthy dependencies: the world and how often they release a quota. -/
def retriedDelete (env : Env) (id requesterId : String) : ℕ → World → World × ℕ
  | 0, w => (w, 0)
  | n + 1, w =>
    let first := faultyDelete env (fun _ => none) id requesterId w
    let rest := retriedDelete env id requesterId n first.world
    (rest.1, releases (fun _ => none) first.log + rest.2)

section Deletes
variable {env : Env} {fault : Cmd → Option Fault} {id requesterId : String} {w : World} {m : Media}

theorem releases_append (l l' : ServiceLog) :
    releases fault (l ++ l') = releases fault l + releases fault l' := List.countP_append

theorem releases_cons (e : Event Cmd Cmd.Reply) (l : ServiceLog) :
    releases fault (e :: l) = releases fault l + if isRelease fault e.1 then 1 else 0 := by
  unfold releases
  rw [List.countP_cons]

/-- A lookup of an inactive row finds nothing. -/
theorem exec_findMedia_inactive {u : String} (hu : env.uuidIn requesterId = some u)
    (hid : env.uuidIn id = some m.id) (hm : w.media.get m.id = some m)
    (hinactive : m.isActive = false) : env.exec (.findMedia requesterId id) w = (.ok none, w) := by
  simp only [Env.exec, hu, hid, hm, Option.filter_some, hinactive, Bool.false_and,
    Bool.false_eq_true, if_false]

/-- No repetition gets past the lookup. -/
theorem retriedDelete_of_inactive {u : String} (hu : env.uuidIn requesterId = some u)
    (hid : env.uuidIn id = some m.id) (hm : w.media.get m.id = some m)
    (hinactive : m.isActive = false) (n : ℕ) : retriedDelete env id requesterId n w = (w, 0) := by
  have hrun : ProgE.Logs (env.failing fun _ => none) (delete id requesterId) w
      (fun _ _ _ => False) fun _ l w' => w' = w ∧ releases (fun _ => none) l = 0 := by
    refine ProgE.Logs.bind (Q := fun _ _ _ => False)
      (E := fun _ l w' => w' = w ∧ releases (fun _ => none) l = 0) ?_
      (fun _ _ _ hfalse => hfalse.elim) fun _ _ _ he => he
    refine logs_await_bind (fun v u' hv => ?_) fun e u' he => ?_
    · obtain ⟨-, hexec⟩ := failing_ok hv
      rw [exec_findMedia_inactive hu hid hm hinactive] at hexec
      obtain ⟨hnone, rfl⟩ := Prod.mk.inj hexec
      obtain rfl := Except.ok.inj hnone
      exact ProgE.logs_throw ⟨rfl, rfl⟩
    · rw [failing_none rfl, exec_findMedia_inactive hu hid hm hinactive] at he
      exact absurd (Prod.mk.inj he).1 (by simp)
  have hone : (faultyDelete env (fun _ => none) id requesterId w).world = w ∧
      releases (fun _ => none) (faultyDelete env (fun _ => none) id requesterId w).log = 0 := by
    have hlogs := hrun.logs
    unfold faultyDelete
    split at hlogs
    · exact hlogs.elim
    · exact hlogs
  induction n with
  | zero => rfl
  | succ n ih =>
    unfold retriedDelete
    simp only [hone.1, hone.2, ih]

/-- The release has taken effect, once, and no other store that a delete writes has changed. -/
structure ReleasedOnce (fault : Cmd → Option Fault) (requesterId : String) (size : ℕ)
    (w : World) (l : ServiceLog) (w' : World) : Prop where
  effect : validateBlobSize (.int size) = .ok () ∧ TakesEffect fault (.releaseQuota requesterId size)
  once : releases fault l = 1
  quota : w'.quotas.get requesterId = (w.quotas.get requesterId).map (·.release size)
  kept : w'.bucket = w.bucket ∧ w'.metaCache = w.metaCache

/-- The release of a delete: it takes effect once, or it does not take effect. -/
theorem recordDelete_logs (hu : env.uuidIn requesterId = some requesterId) (size : ℕ) :
    ProgE.Logs (env.failing fault) (recordDelete requesterId (.int size)) w
      (fun _ l w' => w'.media = w.media ∧ ReleasedOnce fault requesterId size w l w')
      (fun _ l w' => w'.media = w.media ∧ (ReleasedOnce fault requesterId size w l w' ∨
        ¬ (validateBlobSize (.int size) = .ok () ∧
            TakesEffect fault (.releaseQuota requesterId size)) ∧ releases fault l = 0)) := by
  refine logs_sync_bind (fun e he => ⟨rfl, Or.inr ⟨?_, rfl⟩⟩) fun _ hsize => ?_
  · rintro ⟨hok, -⟩
    exact absurd (hok.symm.trans he) (by simp)
  have hget (u : World) (hw : u = w.updateQuota requesterId (·.release size) fun _ => rfl) :
      u.quotas.get requesterId = (w.quotas.get requesterId).map (·.release size) := by
    rw [hw]
    exact get_updateQuota.trans (if_pos rfl)
  have hcount (r : (Cmd.releaseQuota requesterId size).Reply)
      (h : TakesEffect fault (.releaseQuota requesterId size)) :
      releases fault [⟨.releaseQuota requesterId size, r⟩] = 1 := by
    simp [releases, isRelease, h]
  refine logs_await_bind (fun affected u hok => ?_) fun e u he => ?_
  · obtain ⟨hf, hexec⟩ := failing_ok hok
    have heffect : TakesEffect fault (.releaseQuota requesterId size) := takesEffect_of_none hf
    rw [show (JsNumber.int (size : ℤ)).toBigInt = size from rfl, exec_releaseQuota hu] at hexec
    obtain ⟨-, rfl⟩ := Prod.mk.inj hexec
    refine logs_sync_bind (fun e _ => ⟨rfl, Or.inl ⟨⟨hsize, heffect⟩, hcount _ heffect, ?_, rfl, rfl⟩⟩)
      fun _ _ => ?_
    · exact hget _ rfl
    -- the invalidation of the cached quota may fail, its error is swallowed
    have hlast (a : (Cmd.delQuota (cacheKey requesterId)).Reply) (u' : World)
        (hv : env.failing fault (.delQuota (cacheKey requesterId))
          (w.updateQuota requesterId (·.release size) fun _ => rfl) = (a, u')) :
        u'.media = w.media ∧ ReleasedOnce fault requesterId size w
          [⟨.releaseQuota requesterId size, .ok affected⟩, ⟨.delQuota (cacheKey requesterId), a⟩]
          u' := by
      have hworld := faithful_failing env fault (.delQuota (cacheKey requesterId))
        (w.updateQuota requesterId (·.release size) fun _ => rfl)
      rw [hv] at hworld
      have hone : releases fault [⟨.releaseQuota requesterId size, .ok affected⟩,
          ⟨.delQuota (cacheKey requesterId), a⟩] = 1 := by
        simp [releases, isRelease, heffect]
      obtain ⟨hmedia, hquotas, hbucket, hentries⟩ : u'.media = w.media ∧ u'.quotas =
          (w.updateQuota requesterId (·.release size) fun _ => rfl).quotas ∧
          u'.bucket = w.bucket ∧ u'.metaCache = w.metaCache := by
        rcases hworld with rfl | rfl
        all_goals exact ⟨rfl, rfl, rfl, rfl⟩
      refine ⟨hmedia, ⟨hsize, heffect⟩, hone, ?_, hbucket, hentries⟩
      rw [hquotas]
      exact hget _ rfl
    refine ProgE.Logs.tryCatch (E := fun _ l u' => u'.media = w.media ∧ ReleasedOnce fault
      requesterId size w (⟨.releaseQuota requesterId size, .ok affected⟩ :: l) u')
      (logs_await (fun v u' hv => hlast _ u' hv) fun e u' he => hlast _ u' he)
      fun e l u' hdone => ?_
    exact ProgE.logs_pure (by rwa [List.append_nil])
  · by_cases heffect : TakesEffect fault (.releaseQuota requesterId size)
    · have hworld := @failing_takesEffect env fault _ w heffect
      rw [show (JsNumber.int (size : ℤ)).toBigInt = size from rfl] at he
      rw [he, exec_releaseQuota hu] at hworld
      obtain rfl : u = _ := hworld
      exact ⟨rfl, Or.inl ⟨⟨hsize, heffect⟩, hcount _ heffect, hget _ rfl, rfl, rfl⟩⟩
    · obtain ⟨m, hm⟩ := @failing_not_takesEffect env fault _ w heffect
      obtain rfl := (Prod.mk.inj (hm.symm.trans he)).2
      refine ⟨rfl, Or.inr ⟨fun hall => heffect hall.2, ?_⟩⟩
      rw [show (JsNumber.int (size : ℤ)).toBigInt = size from rfl]
      simp [releases, isRelease, heffect]

/-- After the soft delete: everything is done, or the quota is not released. -/
structure RemovedOnce (fault : Cmd → Option Fault) (id requesterId : String) (m : Media) (w : World)
    (l : ServiceLog) (w' : World) : Prop where
  served : DeleteServed fault id requesterId m
  once : releases fault l = 1
  bucket : w'.bucket = removeAll w.bucket m
  entry : w'.metaCache = Function.update w.metaCache (metaKey id) none
  quota : w'.quotas.get requesterId = (w.quotas.get requesterId).map (·.release m.blobSize)

def RemovedOrNot (fault : Cmd → Option Fault) (id requesterId : String) (m : Media) (w : World)
    (l : ServiceLog) (w' : World) : Prop :=
  w'.media = w.media ∧ (RemovedOnce fault id requesterId m w l w' ∨
    ¬ DeleteServed fault id requesterId m ∧ releases fault l = 0)

/-- A delete of an object, before the rest, releases nothing. -/
theorem RemovedOrNot.after_delete {l : ServiceLog} {w' : World}
    (h : RemovedOrNot fault id requesterId m w l w') {path : String}
    (a : (Cmd.deleteObject path).Reply) :
    RemovedOrNot fault id requesterId m w (⟨.deleteObject path, a⟩ :: l) w' := by
  have hl : releases fault (⟨.deleteObject path, a⟩ :: l) = releases fault l :=
    releases_cons _ l
  refine ⟨h.1, h.2.imp (fun hdone => ?_) fun hnot => ⟨hnot.1, hl.trans hnot.2⟩⟩
  exact ⟨hdone.served, hl.trans hdone.once, hdone.bucket, hdone.entry, hdone.quota⟩

/-- The last steps: the DEL of the metadata, and the release. -/
theorem dropMeta_logs (hu : env.uuidIn requesterId = some requesterId)
    (hblob : fault (.deleteObject m.storagePath) = none)
    (hthumb : ∀ path, truthy m.thumbnailPath = some path → fault (.deleteObject path) = none) :
    ProgE.Logs (env.failing fault)
      (do await (.delMeta (metaKey id)); recordDelete requesterId (.int m.blobSize))
      { w with bucket := removeAll w.bucket m } (fun _ => RemovedOrNot fault id requesterId m w)
      fun _ => RemovedOrNot fault id requesterId m w := by
  refine logs_await_bind (fun v u hv => ?_) fun e u he => ?_
  · obtain ⟨hf, hexec⟩ := failing_ok hv
    obtain ⟨-, rfl⟩ := Prod.mk.inj hexec
    have hone {l : ServiceLog} {w' : World}
        (h : ReleasedOnce fault requesterId m.blobSize { w with
          bucket := removeAll w.bucket m
          metaCache := Function.update w.metaCache (metaKey id) none } l w') :
        RemovedOnce fault id requesterId m w (⟨.delMeta (metaKey id), .ok v⟩ :: l) w' := by
      exact ⟨⟨hblob, hthumb, hf, h.effect.1, h.effect.2⟩, h.once, h.kept.1, h.kept.2, h.quota⟩
    refine (recordDelete_logs hu m.blobSize).mono (fun _ l w' h => ⟨h.1, Or.inl (hone h.2)⟩)
      fun _ l w' h => ⟨h.1, ?_⟩
    rcases h.2 with hdone | ⟨hnot, hzero⟩
    · exact Or.inl (hone hdone)
    · exact Or.inr ⟨fun hs => hnot ⟨hs.size, hs.quota⟩, hzero⟩
  · have hfault : fault (.delMeta (metaKey id)) ≠ none := by
      intro hnone
      rw [failing_none hnone] at he
      exact absurd (Prod.mk.inj he).1 (by simp)
    have hmedia := @failing_media env fault (.delMeta (metaKey id))
      { w with bucket := removeAll w.bucket m } rfl
    rw [he] at hmedia
    exact ⟨hmedia, Or.inr ⟨fun hs => hfault hs.entry, rfl⟩⟩

/-- What follows the soft delete releases the quota only if nothing before it has failed. -/
theorem removeDeleted_logs (hu : env.uuidIn requesterId = some requesterId) :
    ProgE.Logs (env.failing fault) (removeDeleted id requesterId m) w
      (fun _ => RemovedOrNot fault id requesterId m w)
      fun _ => RemovedOrNot fault id requesterId m w := by
  -- a step that fails before the release is one of the faults
  have hfailed {path : String} {e : String} {u v : World}
      (hv : v.media = w.media) (he : env.failing fault (.deleteObject path) v = (.error e, u)) :
      u.media = w.media ∧ fault (.deleteObject path) ≠ none := by
    have hmedia := @failing_media env fault (.deleteObject path) v rfl
    rw [he] at hmedia
    refine ⟨hmedia.trans hv, fun hnone => ?_⟩
    rw [failing_none hnone] at he
    exact absurd (Prod.mk.inj he).1 (by simp)
  unfold removeDeleted
  refine logs_await_bind (fun v u hv => ?_) fun e u he => ?_
  · obtain ⟨hblob, hexec⟩ := failing_ok hv
    obtain ⟨-, rfl⟩ := Prod.mk.inj hexec
    have hrest := @dropMeta_logs env fault id requesterId w m hu hblob
    unfold removeAll at hrest
    cases hp : truthy m.thumbnailPath with
    | none =>
      rw [hp] at hrest
      exact (hrest fun _ h => absurd h (by simp)).mono (fun _ _ _ h => h.after_delete _)
        fun _ _ _ h => h.after_delete _
    | some path =>
      rw [hp] at hrest
      refine logs_await_bind (fun v u hv => ?_) fun e u he => ?_
      · obtain ⟨hf, hexec⟩ := failing_ok hv
        obtain ⟨-, rfl⟩ := Prod.mk.inj hexec
        refine (hrest fun _ h => ?_).mono (fun _ _ _ h => (h.after_delete _).after_delete _)
          fun _ _ _ h => (h.after_delete _).after_delete _
        obtain rfl := Option.some.inj h
        exact hf
      · obtain ⟨hmedia, hfault⟩ := hfailed
          (v := { w with bucket := Function.update w.bucket m.storagePath none }) rfl he
        exact ⟨hmedia, Or.inr ⟨fun hs => hfault (hs.thumbnail path hp), rfl⟩⟩
  · obtain ⟨hmedia, hfault⟩ := hfailed rfl he
    exact ⟨hmedia, Or.inr ⟨fun hs => hfault hs.blob, rfl⟩⟩

/-- A first attempt of the owner whose soft delete is committed. -/
theorem faultyDelete_done (hcanon : RowsCanonical env w) (hid : env.uuidIn id = some m.id)
    (hm : w.media.get m.id = some m) (hactive : m.isActive = true)
    (hfind : fault (.findMedia m.ownerId id) = none)
    (hsoft : fault (.softDelete m.ownerId id) = none) :
    (faultyDelete env fault id m.ownerId w).world.media.get m.id =
        some { m with isActive := false } ∧
      (RemovedOnce fault id m.ownerId m w (faultyDelete env fault id m.ownerId w).log
          (faultyDelete env fault id m.ownerId w).world ∨
        ¬ DeleteServed fault id m.ownerId m ∧
          releases fault (faultyDelete env fault id m.ownerId w).log = 0) := by
  have hself : env.uuidIn m.ownerId = some m.ownerId := (hcanon _ _ hm).ownerId
  have hlookup : env.failing fault (.findMedia m.ownerId id) w = (.ok (some m), w) := by
    rw [failing_none hfind]
    simp [Env.exec, hself, hid, hm, hactive, rlsSelect]
  have hcommit : env.failing fault (.softDelete m.ownerId id) w = (.ok (),
      w.updateOwned m.ownerId m.id ({ · with isActive := false }) fun _ => rfl) := by
    rw [failing_none hsoft]
    simp only [Env.exec, hself, hid]
  have hrow : (w.updateOwned m.ownerId m.id ({ · with isActive := false })
      fun _ => rfl).media.get m.id = some { m with isActive := false } := by
    rw [get_updateOwned, if_pos rfl, hm, Option.map_some, if_pos rfl]
  have hlogs : ProgE.Logs (env.failing fault) (delete id m.ownerId) w
      (fun _ l w' => w'.media.get m.id = some { m with isActive := false } ∧
        (RemovedOnce fault id m.ownerId m w l w' ∨
          ¬ DeleteServed fault id m.ownerId m ∧ releases fault l = 0))
      fun _ l w' => w'.media.get m.id = some { m with isActive := false } ∧
        (RemovedOnce fault id m.ownerId m w l w' ∨
          ¬ DeleteServed fault id m.ownerId m ∧ releases fault l = 0) := by
    refine ProgE.Logs.bind (Q := fun media l w' => media = m ∧ w' = w ∧ releases fault l = 0)
      (E := fun _ _ _ => False) ?_ (fun media l w' h => ?_) fun _ _ _ hfalse => hfalse.elim
    · refine logs_await_bind (fun v u hv => ?_) fun e u he => ?_
      · rw [hlookup] at hv
        obtain ⟨hok, rfl⟩ := Prod.mk.inj hv
        obtain rfl := Except.ok.inj hok
        exact ProgE.logs_pure ⟨rfl, rfl, rfl⟩
      · rw [hlookup] at he
        exact absurd (Prod.mk.inj he).1 (by simp)
    · rw [h.1, h.2.1]
      refine logs_sync_bind (fun e he => ?_) fun _ _ => logs_await_bind (fun v u hv => ?_)
        fun e u he => ?_
      · exact absurd he (by simp [enforceOwner, throwIf])
      · rw [hcommit] at hv
        obtain ⟨-, rfl⟩ := Prod.mk.inj hv
        -- the lookup and the soft delete release nothing
        have hlog (l' : ServiceLog) :
            releases fault (l ++ ⟨.softDelete m.ownerId id, .ok v⟩ :: l') = releases fault l' := by
          rw [releases_append, h.2.2, releases_cons, Nat.zero_add]
          rfl
        refine (removeDeleted_logs hself).mono (fun _ l' w' hr => ?_) fun _ l' w' hr => ?_
        all_goals
          refine ⟨by rw [hr.1]; exact hrow, hr.2.imp (fun hdone => ?_) fun hnot => ?_⟩
          · exact ⟨hdone.served, (hlog l').trans hdone.once, hdone.bucket, hdone.entry, hdone.quota⟩
          · exact ⟨hnot.1, (hlog l').trans hnot.2⟩
      · rw [hcommit] at he
        exact absurd (Prod.mk.inj he).1 (by simp)
  have h := hlogs.logs
  unfold faultyDelete
  split at h
  · exact h
  · exact h

/-- The DEL of a delete empties the cache of the media if no other spelling of its id is cached. -/
theorem entries_gone_iff :
    (∀ s, env.uuidIn s = some m.id → Function.update w.metaCache (metaKey id) none (metaKey s) = none) ↔
      OnlyCachedAs env id m w := by
  constructor
  · intro h s hs hne
    have hkey : metaKey s ≠ metaKey id := fun hk => hne (metaKey_injective hk)
    rw [← Function.update_of_ne hkey none w.metaCache]
    exact h s hs
  · intro h s hs
    by_cases hsid : s = id
    · rw [hsid]
      exact Function.update_self _ _ _
    · rw [Function.update_of_ne fun hk => hsid (metaKey_injective hk)]
      exact h s hs hsid

end Deletes

/-- Whatever fails after the soft delete, repeating the delete completes it if and only if the first
attempt has already done everything, and its DEL has met the one spelling of the id that is cached. -/
theorem delete_completed_iff (env : Env) (fault : Cmd → Option Fault) (w : World)
    (hcanon : RowsCanonical env w) (id : String) (m : Media) (hid : env.uuidIn id = some m.id)
    (hm : w.media.get m.id = some m) (hactive : m.isActive = true)
    (hfind : fault (.findMedia m.ownerId id) = none)
    (hsoft : fault (.softDelete m.ownerId id) = none) (n : ℕ) :
    DeleteCompleted env m w
        (retriedDelete env id m.ownerId n (faultyDelete env fault id m.ownerId w).world).1
        (releases fault (faultyDelete env fault id m.ownerId w).log +
          (retriedDelete env id m.ownerId n (faultyDelete env fault id m.ownerId w).world).2) ↔
      DeleteServed fault id m.ownerId m ∧ (w.quotas.get m.ownerId).isSome = true ∧
        OnlyCachedAs env id m w := by
  obtain ⟨hrow, hdone⟩ := faultyDelete_done hcanon hid hm hactive hfind hsoft
  have hself : env.uuidIn m.ownerId = some m.ownerId := (hcanon _ _ hm).ownerId
  rw [retriedDelete_of_inactive (m := { m with isActive := false }) hself hid hrow rfl n]
  rw [Nat.add_zero]
  constructor
  · intro h
    obtain ⟨q, hq, -⟩ := h.quota
    rcases hdone with hdone | ⟨-, hzero⟩
    · refine ⟨hdone.served, by rw [hq]; rfl, entries_gone_iff.mp ?_⟩
      rw [← hdone.entry]
      exact h.entry
    · exact absurd (hzero.symm.trans h.once) (by simp)
  · rintro ⟨hserved, hquota, hcached⟩
    obtain ⟨q, hq⟩ := Option.isSome_iff_exists.mp hquota
    rcases hdone with hdone | ⟨hnot, -⟩
    · refine ⟨⟨_, hrow, rfl⟩, ?_, fun path hpath => ?_, ?_, ⟨q, hq, ?_⟩, hdone.once⟩
      · rw [hdone.bucket, removeAll_storagePath]
      · rw [hdone.bucket, removeAll_thumbnail hpath]
      · rw [hdone.entry]
        exact entries_gone_iff.mpr hcached
      · rw [hdone.quota, hq, Option.map_some]
    · exact absurd hserved hnot

/-- The owner has uploaded a media and read its metadata, which are cached now. -/
def readPlain : ServiceServed :=
  servedIn uploadedPlain.done.world (.getMetadata (exampleId 1) (exampleId 7))

theorem readPlain_canonical : RowsCanonical exampleEnv readPlain.done.world :=
  canonical_serve _ (canonical_serve plainUpload (mediaStores_empty exampleEnv).canonical)

theorem readPlain_row : ∃ m, readPlain.done.world.media.get m.id = some m ∧
    m.id = exampleId 1 ∧ m.ownerId = exampleId 7 ∧ m.isActive = true ∧
    validateBlobSize (.int m.blobSize) = .ok () := by
  have hrow : (readPlain.done.world.media.get (exampleId 1)).any (fun m =>
      decide (m.ownerId = exampleId 7 ∧ m.isActive = true ∧
        validateBlobSize (.int m.blobSize) = .ok ())) = true := by decide +kernel
  obtain ⟨m, hm, hp⟩ := (Option.any_eq_true _ _).mp hrow
  have hid : m.id = exampleId 1 := media_id hm
  exact ⟨m, hid ▸ hm, hid, of_decide_eq_true hp⟩

/-- The UPDATE that releases the quota is committed, its answer is lost. -/
def releaseUnanswered : Cmd → Option Fault
  | .releaseQuota _ _ => some ⟨"Connection terminated", true⟩
  | _ => none

theorem delete_completed_unanswered :
    (readPlain.done.world.metaCache (metaKey (exampleId 1))).isSome = true ∧
    (faultyDelete exampleEnv releaseUnanswered (exampleId 1) (exampleId 7)
        readPlain.done.world).result = .error (.error "Connection terminated") ∧
    ∃ m, readPlain.done.world.media.get (exampleId 1) = some m ∧
      DeleteCompleted exampleEnv m readPlain.done.world
        (retriedDelete exampleEnv (exampleId 1) m.ownerId 2
          (faultyDelete exampleEnv releaseUnanswered (exampleId 1) m.ownerId
            readPlain.done.world).world).1
        (releases releaseUnanswered (faultyDelete exampleEnv releaseUnanswered (exampleId 1) m.ownerId
            readPlain.done.world).log +
          (retriedDelete exampleEnv (exampleId 1) m.ownerId 2
            (faultyDelete exampleEnv releaseUnanswered (exampleId 1) m.ownerId
              readPlain.done.world).world).2) := by
  obtain ⟨m, hm, hid, howner, hactive, hsize⟩ := readPlain_row
  have hquota : (readPlain.done.world.quotas.get (exampleId 7)).isSome = true := by decide +kernel
  have hnamed : exampleEnv.uuidIn (exampleId 1) = some m.id := hid ▸ exampleId_canonical 1
  have hcached : OnlyCachedAs exampleEnv (exampleId 1) m readPlain.done.world := fun s hs hne =>
    absurd (metaKey_injective (isMetaKey_example.mp ⟨s, hid ▸ hs, rfl⟩)) hne
  refine ⟨by decide +kernel, by decide +kernel, m, hid ▸ hm,
    (delete_completed_iff exampleEnv releaseUnanswered readPlain.done.world
    readPlain_canonical (exampleId 1) m hnamed hm hactive rfl rfl 2).mpr ⟨?_, ?_, hcached⟩⟩
  · refine ⟨rfl, fun _ _ => rfl, rfl, hsize, fun f hf => ?_⟩
    obtain rfl := Option.some.inj hf
    rfl
  · exact howner ▸ hquota

/-- The S3 deletes fail. -/
def bucketDown : Cmd → Option Fault
  | .deleteObject _ => some ⟨"SlowDown", false⟩
  | _ => none

/-- A delete whose S3 delete has failed is answered 404 when it is repeated: the object stays, and
the quota is never released. -/
theorem failed_delete_not_completed :
    ¬ ∀ (env : Env) (fault : Cmd → Option Fault) (w : World) (id : String) (m : Media) (n : ℕ),
      RowsCanonical env w → env.uuidIn id = some m.id → w.media.get m.id = some m →
      m.isActive = true → (w.quotas.get m.ownerId).isSome = true →
      fault (.findMedia m.ownerId id) = none → fault (.softDelete m.ownerId id) = none →
      DeleteCompleted env m w
        (retriedDelete env id m.ownerId (n + 1) (faultyDelete env fault id m.ownerId w).world).1
        (releases fault (faultyDelete env fault id m.ownerId w).log +
          (retriedDelete env id m.ownerId (n + 1) (faultyDelete env fault id m.ownerId w).world).2) := by
  intro hall
  obtain ⟨m, hm, hid, howner, hactive, -⟩ := readPlain_row
  have hquota : (readPlain.done.world.quotas.get (exampleId 7)).isSome = true := by decide +kernel
  have h := (hall exampleEnv bucketDown readPlain.done.world (exampleId 1) m 0
    readPlain_canonical (hid ▸ exampleId_canonical 1) hm hactive (howner ▸ hquota) rfl rfl).once
  rw [howner] at h
  revert h
  decide +kernel

end WhisprMedia
