import WhisprMedia.OrphanedObjects
import WhisprMedia.QuotaConservation

/-! One upload tried again and again while the steps after the INSERT of its row fail: which of
the rows it leaves are counted in the quota of their owner. -/
namespace WhisprMedia
open Awaiting Keyed MediaService QuotaService

/-- The commands that an upload, or a retry that finds its row, can issue once the row is stored. -/
def Cmd.afterSave : Cmd → Bool
  | .setDedup _ _ _ | .chargeQuota _ _ | .delQuota _ | .updateSharedWith _ _ _ | .delMeta _
  | .presign _ _ | .decr _ | .del _ => true
  | _ => false

/-- Only steps after the INSERT fail. -/
def FailsAfterSave (fault : Cmd → Option Fault) : Prop := ∀ c, c.afterSave = false → fault c = none

/-- The owner has a quota row when the upload is charged: it was there, or the upload does not read
the quota from the cache and so creates the row. -/
def HasQuotaRow (w : World) (ownerId u : String) : Prop :=
  (w.quotas.get u).isSome = true ∨ w.quotaCache (cacheKey ownerId) = none

/-- The request of an upload. -/
structure UploadRequest where
  ownerId : String
  file : File
  context : MediaContext
  thumbnailFile : Option File
  sharedWith : Option (List String)

/-- After the INSERT of the row `id` its dedup entry is written and the charge takes effect. -/
def GetsCharged (env : Env) (req : UploadRequest) (u : String) (fault : Cmd → Option Fault)
    (w : World) (id : String) : Prop :=
  fault (.setDedup (uploadKey env req.ownerId req.file req.context) id DEDUP_CACHE_TTL_MS) = none ∧
    TakesEffect fault (.chargeQuota req.ownerId req.file.size) ∧ HasQuotaRow w req.ownerId u

section Books
variable {w w' w'' : World} {u : String}

/-- Neither the rows of a user nor what his quota row records has changed. -/
structure BooksSettled (u : String) (w w' : World) : Prop where
  active : activeTotal u w' = activeTotal u w
  recorded : recorded u w' = recorded u w

theorem BooksSettled.trans (h : BooksSettled u w w') (h' : BooksSettled u w' w'') :
    BooksSettled u w w'' :=
  ⟨h'.active.trans h.active, h'.recorded.trans h.recorded⟩

theorem recorded_of_kept (h : QuotaKept u w w') : recorded u w' = recorded u w := by
  unfold recorded
  cases hq : w.quotas.get u with
  | some q => rw [h.kept q hq]
  | none =>
    cases hq' : w'.quotas.get u with
    | none => rfl
    | some q =>
      -- a row that was inserted has recorded nothing
      rcases h.before hq' with h0 | ⟨-, hf⟩
      · exact absurd (hq.symm.trans h0) (by simp)
      · exact Prod.ext hf.storageUsed hf.filesCount

theorem holding_of_core {m m' : Media} (h : m'.core = m.core) : holding u m' = holding u m := by
  obtain ⟨-, ho, -, -, -, -, hs, -, ha⟩ := Media.core_eq h.symm
  unfold holding
  rw [ho, hs, ha]

theorem Quiet.booksSettled (h : Quiet w w') : BooksSettled u w w' where
  active := by
    unfold activeTotal
    apply Table.sum_of_get
    intro k
    cases hm : w.media.get k with
    | none =>
      have hn := h.media k
      rw [hm, Option.map_none, Option.map_eq_none_iff] at hn
      rw [hn]
    | some m =>
      obtain ⟨m', hm', hcore⟩ := h.get hm
      rw [hm', Option.map_some, Option.map_some, holding_of_core hcore]
  recorded := recorded_of_kept (h.quotas u)

/-- A new row of the user counts for its size and for one file. -/
theorem activeTotal_insert {m : Media} (hfresh : w.media.get m.id = none) (ho : m.ownerId = u)
    (ha : m.isActive = true) (hm : w'.media = w.media.insert m) :
    activeTotal u w' = activeTotal u w + ((m.blobSize : ℤ), 1) := by
  unfold activeTotal
  rw [hm, Table.rows_insert hfresh, List.map_append, List.sum_append, List.map_singleton,
    List.sum_singleton, holding, if_pos ⟨ho, ha⟩]

end Books

/-! One attempt -/

/-- What an attempt has done to the rows and to the quota of its owner. -/
inductive Attempted (env : Env) (req : UploadRequest) (u : String) (fault : Cmd → Option Fault)
    (w w' : World) : Prop
  | unsaved (hkeys : ∀ k, w.media.get k = none → w'.media.get k = none) (books : BooksSettled u w w')
  | saved (id : String) (hnew : w.media.get id = none) (hrow : (w'.media.get id).isSome)
      (hkeys : ∀ k, w.media.get k = none → k ≠ id → w'.media.get k = none)
      (active : activeTotal u w' = activeTotal u w + ((req.file.size : ℤ), 1))
      (counted : GetsCharged env req u fault w id →
        recorded u w' = recorded u w + ((req.file.size : ℤ), 1))
      (uncounted : ¬ GetsCharged env req u fault w id → recorded u w' = recorded u w)

section Attempts
variable {env : Env} {fault : Cmd → Option Fault} {req : UploadRequest} {u : String}
  {w w₀ w' w'' : World}

theorem Quiet.keys (h : Quiet w w') (k : String) (hk : w.media.get k = none) :
    w'.media.get k = none := by
  have hm := h.media k
  rwa [hk, Option.map_none, Option.map_eq_none_iff] at hm

theorem Attempted.of_quiet (h : Quiet w w') : Attempted env req u fault w w' :=
  .unsaved h.keys h.booksSettled

theorem Attempted.of_orphaned (h : Orphaned env w w') : Attempted env req u fault w w' := by
  refine .unsaved (fun k hk => ?_) ⟨?_, recorded_of_kept (h.quotas u)⟩
  · rwa [h.media]
  · simp only [activeTotal, h.media]

theorem hasQuotaRow_of_idle (h : Idle w₀ w) (ownerId : String) :
    HasQuotaRow w ownerId u ↔ HasQuotaRow w₀ ownerId u := by
  unfold HasQuotaRow
  rw [h.quotaRows, h.quotaCache]

/-- Quiet parts behind an attempt do not count. -/
theorem Attempted.after (h : Attempted env req u fault w w') (hq : Quiet w' w'') :
    Attempted env req u fault w w'' := by
  have hsettled : BooksSettled u w' w'' := hq.booksSettled
  cases h with
  | unsaved hkeys books =>
    exact .unsaved (fun k hk => hq.keys k (hkeys k hk)) (books.trans hsettled)
  | saved id hnew hrow hkeys active counted uncounted =>
    obtain ⟨m, hm⟩ := Option.isSome_iff_exists.mp hrow
    obtain ⟨m', hm', -⟩ := hq.get hm
    refine .saved id hnew (by rw [hm']; rfl) (fun k hk hne => hq.keys k (hkeys k hk hne))
      (hsettled.active.trans active) (fun hc => hsettled.recorded.trans (counted hc))
      fun hc => hsettled.recorded.trans (uncounted hc)

/-- Parts before it that leave the quotas alone do not count either. -/
theorem Attempted.before (h : Attempted env req u fault w w') (hi : Idle w₀ w) :
    Attempted env req u fault w₀ w' := by
  have hsettled : BooksSettled u w₀ w := hi.toQuiet.booksSettled
  cases h with
  | unsaved hkeys books =>
    exact .unsaved (fun k hk => hkeys k (hi.toQuiet.keys k hk)) (hsettled.trans books)
  | saved id hnew hrow hkeys active counted uncounted =>
    have hcharged : GetsCharged env req u fault w id ↔ GetsCharged env req u fault w₀ id := by
      unfold GetsCharged
      rw [hasQuotaRow_of_idle hi]
    refine .saved id (by rwa [← hi.rows]) hrow (fun k hk hne => hkeys k (hi.toQuiet.keys k hk) hne)
      (by rw [active, hsettled.active]) (fun hc => ?_) fun hc => ?_
    · rw [counted (hcharged.mpr hc), hsettled.recorded]
    · rw [uncounted fun hc' => hc (hcharged.mp hc'), hsettled.recorded]

/-- What is done once a row is stored: the rows stay, and the charge counts if it takes place. -/
structure Billed (fault : Cmd → Option Fault) (ownerId u : String) (size : ℕ) (entered : Prop)
    (w w' : World) : Prop where
  media : w'.media = w.media
  counted : entered → TakesEffect fault (.chargeQuota ownerId size) → (w.quotas.get u).isSome →
    recorded u w' = recorded u w + ((size : ℤ), 1)
  uncounted : ¬ (entered ∧ TakesEffect fault (.chargeQuota ownerId size) ∧
    (w.quotas.get u).isSome) → recorded u w' = recorded u w

theorem recorded_chargeRow {size : ℤ} (h : (w.quotas.get u).isSome) :
    recorded u (w.chargeRow u size) = recorded u w + (size, 1) := by
  obtain ⟨q, hq⟩ := Option.isSome_iff_exists.mp h
  unfold recorded
  rw [get_chargeRow, if_pos rfl, hq]
  rfl

theorem Billed.after {ownerId : String} {size : ℕ} {entered : Prop}
    (h : Billed fault ownerId u size entered w w') (hc : Calm w' w'') :
    Billed fault ownerId u size entered w w'' := by
  have hrecorded : recorded u w'' = recorded u w' := hc.toQuiet.booksSettled.recorded
  exact ⟨hc.rows.trans h.media, fun he ht hs => hrecorded.trans (h.counted he ht hs),
    fun hn => hrecorded.trans (h.uncounted hn)⟩

/-- A charge that takes effect moves the row of the user, if there is one. -/
theorem chargeQuota_billed {ownerId : String} {size : ℕ} (hu : env.uuidIn ownerId = some u) :
    Billed fault ownerId u size True w
      (env.failing fault (.chargeQuota ownerId size) w).2 := by
  by_cases ht : TakesEffect fault (.chargeQuota ownerId size)
  · rw [failing_takesEffect ht, exec_chargeQuota hu]
    refine ⟨rfl, fun _ _ hs => recorded_chargeRow hs, fun hn => ?_⟩
    have hnone : w.quotas.get u = none := by
      rw [← Option.not_isSome_iff_eq_none]
      exact fun hs => hn ⟨trivial, ht, hs⟩
    exact (calm_chargeRow hnone).toQuiet.booksSettled.recorded
  · obtain ⟨m, hm⟩ := @failing_not_takesEffect env fault _ w ht
    rw [hm]
    exact ⟨rfl, fun _ ht' => absurd ht' ht, fun _ => rfl⟩

theorem recordUpload_billed {ownerId : String} {size : ℕ} (hu : env.uuidIn ownerId = some u)
    (hsize : validateBlobSize (.int size) = .ok ()) :
    ProgE.Ends (env.failing fault) (recordUpload ownerId (.int size)) w
      (fun _ => Billed fault ownerId u size True w) (fun _ => Billed fault ownerId u size True w) := by
  unfold recordUpload
  refine ends_sync_bind (fun _ he => absurd (hsize.symm.trans he) (by simp)) fun _ _ => ?_
  refine ProgE.Ends.bind (Q := fun _ => Billed fault ownerId u size True w)
    (ends_await fun r w₁ hr => ?_) fun affected w₁ h₁ => ?_
  · have hbilled := @chargeQuota_billed env fault u w ownerId size hu
    rw [show (env.failing fault (.chargeQuota ownerId size) w).2 = w₁ from congrArg Prod.snd hr]
      at hbilled
    cases r <;> exact hbilled
  · refine ends_sync_bind (fun _ _ => h₁) fun _ _ => ?_
    refine ends_calm_bind (faithful_failing env fault) (invalidateCache_touches ownerId) (by decide)
      (fun _ _ hc => h₁.after hc) fun _ w₂ hc => ?_
    have hspawn := @ends_calm env (env.failing fault) w₂ Unit (faithful_failing env fault)
      [.background] (await (.spawnQuotaAlert ownerId)) (touches_await (by simp [Cmd.family]))
      (by decide)
    exact hspawn.mono (fun _ _ hc' => (h₁.after hc).after hc') fun _ _ hc' => (h₁.after hc).after hc'

/-- The steps of an upload after its row is stored. -/
theorem afterSave_billed {ownerId key id : String} {size : ℕ} {media : Media}
    (hu : env.uuidIn ownerId = some u) (hsize : validateBlobSize (.int size) = .ok ()) :
    ProgE.Ends (env.failing fault)
      (do
        await (.setDedup key id DEDUP_CACHE_TTL_MS)
        recordUpload ownerId (.int size)
        buildUploadResponse env media) w
      (fun _ => Billed fault ownerId u size
        (fault (.setDedup key id DEDUP_CACHE_TTL_MS) = none) w)
      (fun _ => Billed fault ownerId u size
        (fault (.setDedup key id DEDUP_CACHE_TTL_MS) = none) w) := by
  refine ProgE.Ends.bind (Q := fun _ w₁ => fault (.setDedup key id DEDUP_CACHE_TTL_MS) = none ∧
    w₁.media = w.media ∧ w₁.quotas = w.quotas) (ends_await fun r w₁ hr => ?_) fun _ w₁ h₁ => ?_
  · have hkept : w₁.media = w.media ∧ w₁.quotas = w.quotas := by
      rcases faithful_failing env fault (.setDedup key id DEDUP_CACHE_TTL_MS) w with he | he <;>
        rw [hr] at he <;> rw [show w₁ = _ from he] <;> exact ⟨rfl, rfl⟩
    cases r with
    | ok v => exact ⟨(failing_ok hr).1, hkept⟩
    | error m =>
      -- the entry is not written, or its write is not acknowledged: nothing is charged
      have hfault : fault (.setDedup key id DEDUP_CACHE_TTL_MS) ≠ none := by
        intro hnone
        rw [failing_none hnone] at hr
        exact absurd (Prod.mk.inj hr).1 (by simp)
      refine ⟨hkept.1, fun he => absurd he hfault, fun _ => ?_⟩
      unfold recorded
      rw [hkept.2]
  · obtain ⟨hnone, hmedia, hquotas⟩ := h₁
    have hbilled {w' : World} (h : Billed fault ownerId u size True w₁ w') :
        Billed fault ownerId u size (fault (.setDedup key id DEDUP_CACHE_TTL_MS) = none) w w' := by
      have hrecorded : recorded u w₁ = recorded u w := by
        unfold recorded
        rw [hquotas]
      refine ⟨h.media.trans hmedia, fun _ ht hs => ?_, fun hn => ?_⟩
      · rw [h.counted trivial ht (hquotas ▸ hs), hrecorded]
      · rw [h.uncounted fun hc => hn ⟨hnone, hc.2.1, hquotas ▸ hc.2.2⟩, hrecorded]
    refine ProgE.Ends.bind ((recordUpload_billed hu hsize).mono (fun _ _ h => h)
      fun _ _ h => hbilled h) fun _ w₂ h₂ => ?_
    have hresponse := @ends_calm env (env.failing fault) w₂ _ (faithful_failing env fault)
      [.outside] _ (buildUploadResponse_touches env media) (by decide)
    exact hresponse.mono (fun _ _ hc => hbilled (h₂.after hc)) fun _ _ hc => hbilled (h₂.after hc)

/-! The steps before -/

/-- Commands of these families do not come after the INSERT. -/
theorem early_of_family {c : Cmd} (h : c.family ∈ [Family.quotaFill, .quotaLookup, .mediaLookup,
    .mediaInsert, .bucket, .draws]) : c.afterSave = false := by
  cases c <;> first | rfl | exact absurd h (by simp [Cmd.family])

theorem Touches.early {α : Type} {F : List Family} {x : Svc α} (h : Touches F x)
    (hF : ∀ f ∈ F, f ∈ [Family.quotaFill, .quotaLookup, .mediaLookup, .mediaInsert, .bucket,
      .draws]) : x.Issues fun c => c.afterSave = false :=
  h.issues.mono fun _ hc => early_of_family (hF _ hc)

/-- Steps before the INSERT do not fail. -/
theorem ends_of_early {α : Type} {x : Svc α} {Q : α → World → Prop} {E : Err → World → Prop}
    (hlate : FailsAfterSave fault) (hx : x.Issues fun c => c.afterSave = false)
    (h : ProgE.Ends env.exec x w Q E) : ProgE.Ends (env.failing fault) x w Q E := by
  have hrun : Prog.run (env.failing fault) x.run w = Prog.run env.exec x.run w :=
    Prog.Issues.run_congr hx (fun c w hc => failing_none (hlate c hc)) w
  constructor
  rw [hrun]
  exact h.ends

theorem enforceQuota_early (userId : String) (blobSize : JsNumber) :
    (enforceQuota userId blobSize).Issues fun c => c.afterSave = false := by
  have hget : (tryCatch (await (.getQuota (cacheKey userId))) fun _ => pure none :
      Svc (Option CachedQuota)).Issues fun c => c.afterSave = false :=
    ProgE.Issues.tryCatch ⟨rfl, fun _ => trivial⟩ fun _ => trivial
  have hset (quota : UserQuota) : (tryCatch
      (await (.setQuota (cacheKey userId) (toCached quota) QUOTA_CACHE_TTL_MS)) fun _ => pure () :
      Svc Unit).Issues fun c => c.afterSave = false :=
    ProgE.Issues.tryCatch ⟨rfl, fun _ => trivial⟩ fun _ => trivial
  have hquota : (getOrCreateQuota userId).Issues fun c => c.afterSave = false := by
    refine hget.bind fun cached => ?_
    cases cached with
    | some cached => trivial
    | none =>
      exact ((findOrInsertRow_touches userId).early (by decide)).bind fun quota =>
        (hset quota).bind fun _ => trivial
  exact ProgE.Issues.bind (ProgE.Issues.bind trivial fun _ => hquota.bind fun _ => trivial)
    fun _ => trivial

theorem findDuplicate_early (ownerId key : String) :
    (findDuplicate ownerId key).Issues fun c => c.afterSave = false := by
  refine ProgE.Issues.bind ⟨rfl, fun _ => trivial⟩ fun existingId => ?_
  split
  · exact ⟨rfl, fun _ => trivial⟩
  · trivial

theorem storeNew_early (env : Env) (req : UploadRequest) :
    (storeNew env req.ownerId req.file req.context req.thumbnailFile req.sharedWith).Issues
      fun c => c.afterSave = false := by
  have hexpires : (computeExpiresAt env req.context).Issues fun c => c.afterSave = false := by
    unfold computeExpiresAt
    split
    · exact ProgE.Issues.bind ⟨rfl, fun _ => trivial⟩ fun _ => trivial
    · trivial
  refine ProgE.Issues.bind ⟨rfl, fun _ => trivial⟩ fun id => ProgE.Issues.bind trivial fun path =>
    ProgE.Issues.bind ⟨rfl, fun _ => trivial⟩ fun _ => ?_
  exact ((storeThumbnail_touches req.ownerId id req.thumbnailFile).early (by decide)).bind
    fun _ => hexpires.bind fun _ => ((saveMedia_touches req.ownerId _).early (by decide)).bind
      fun _ => trivial

/-- The owner has a row behind the quota check exactly if he had one, or the check was not answered
from the cache. -/
theorem QuotaRead.hasQuotaRow {userId : String} {q : UserQuota} (hu : env.uuidIn userId = some u)
    (h : QuotaRead env userId w q w') :
    HasQuotaRow w userId u ↔ (w'.quotas.get u).isSome = true := by
  unfold HasQuotaRow
  rcases h.source with ⟨e, he, -, rfl⟩ | ⟨hnone, u', hu', hq, -⟩
  · rw [he]
    simp
  · obtain rfl := Option.some.inj (hu.symm.trans hu')
    simp [hnone, hq]

/-- The part of an upload that stores a new row. -/
theorem storeNew_attempt (hlate : FailsAfterSave fault) (hu : env.uuidIn req.ownerId = some u)
    (hsize : validateBlobSize (.int req.file.size) = .ok ()) (hcalm : Calm w₀ w)
    (hrow : HasQuotaRow w₀ req.ownerId u ↔ (w.quotas.get u).isSome = true) :
    ProgE.Ends (env.failing fault)
      (do
        let media ← storeNew env req.ownerId req.file req.context req.thumbnailFile req.sharedWith
        await (.setDedup (uploadKey env req.ownerId req.file req.context) media.id
          DEDUP_CACHE_TTL_MS)
        recordUpload req.ownerId (.int req.file.size)
        buildUploadResponse env media) w
      (fun _ => Attempted env req u fault w₀) (fun _ => Attempted env req u fault w₀) := by
  refine ProgE.Ends.bind ((ends_of_early hlate (storeNew_early env req) storeNew_ends).mono
    (fun _ _ h => h) fun _ w' h => ?_) fun media w₁ h => ?_
  · -- no row: nothing is left, or the objects of an INSERT that failed
    rcases h with h | h
    · exact .of_quiet (hcalm.toQuiet.trans h)
    · exact .of_orphaned (h.between hcalm (Calm.refl w'))
  · obtain ⟨m, hid, -, hm, hfresh, hw₁⟩ := h
    have howner : m.ownerId = u := Option.some.inj (hm.owner.symm.trans hu)
    have hmedia : w₁.media = w.media.insert m := by rw [hw₁]
    have hquotas : w₁.quotas = w.quotas := by rw [hw₁]
    have hactive := activeTotal_insert hfresh howner hm.isActive hmedia
    have hbooks : BooksSettled u w₀ w := hcalm.toQuiet.booksSettled
    have hrecorded : recorded u w₁ = recorded u w₀ := by
      rw [← hbooks.recorded]
      unfold recorded
      rw [hquotas]
    -- with the row there, the books tell whether the upload was charged
    have hdone {w' : World} (h : Billed fault req.ownerId u req.file.size (fault (.setDedup
        (uploadKey env req.ownerId req.file req.context) media.id DEDUP_CACHE_TTL_MS) = none) w₁ w') :
        Attempted env req u fault w₀ w' := by
      have hget (k : String) : w'.media.get k = if k = m.id then some m else w₀.media.get k := by
        rw [h.media, hmedia, get_insertMedia hfresh, hcalm.rows]
      rw [hid] at h
      refine .saved m.id (by rw [← hcalm.rows, hfresh]) (by rw [hget, if_pos rfl]; rfl)
        (fun k hk hne => by rw [hget, if_neg hne, hk]) ?_ (fun hc => ?_) fun hn => ?_
      · calc activeTotal u w' = activeTotal u w₁ := by simp only [activeTotal, h.media]
          _ = activeTotal u w + ((m.blobSize : ℤ), 1) := hactive
          _ = activeTotal u w₀ + ((req.file.size : ℤ), 1) := by rw [hbooks.active, hm.blobSize]
      · rw [h.counted hc.1 hc.2.1 (hquotas ▸ hrow.mp hc.2.2), hrecorded]
      · rw [h.uncounted fun hc => hn ⟨hc.1, hc.2.1, hrow.mpr (hquotas ▸ hc.2.2)⟩, hrecorded]
    exact (afterSave_billed hu hsize).mono (fun _ _ h => hdone h) fun _ _ h => hdone h

theorem uploadHeld_attempt (hlate : FailsAfterSave fault) (hu : env.uuidIn req.ownerId = some u) :
    ProgE.Ends (env.failing fault)
      (uploadHeld env req.ownerId req.file req.context req.thumbnailFile req.sharedWith) w
      (fun _ => Attempted env req u fault w) (fun _ => Attempted env req u fault w) := by
  have hf := faithful_failing env fault
  refine ends_idle_bind hf (authorizeGroupIconUpload_touches env req.context req.ownerId)
    (by decide) (fun _ _ h => .of_quiet h.toQuiet) fun _ w₀ h₀ => ?_
  suffices hrest : ProgE.Ends (env.failing fault) _ w₀ (fun _ => Attempted env req u fault w₀)
      (fun _ => Attempted env req u fault w₀) from
    hrest.mono (fun _ _ h => h.before h₀) fun _ _ h => h.before h₀
  refine ProgE.Ends.bind ((ends_of_early hlate (enforceQuota_early _ _)
    (enforceQuota_ends req.file.size)).mono (fun _ _ h => h) fun _ _ h => .of_quiet h.1.toQuiet)
    fun _ w₁ h₁ => ?_
  obtain ⟨hsize, q, hread, -⟩ := h₁
  refine ends_idle_bind hf (validateFile_touches env req.file req.context) (by decide)
    (fun _ _ h => .of_quiet (hread.calm.trans h.toCalm).toQuiet) fun _ w₂ h₂ => ?_
  have hcalm := hread.calm.trans h₂.toCalm
  refine ProgE.Ends.bind ((ends_of_early hlate (findDuplicate_early _ _)
    (findDuplicate_ends _)).mono (fun _ _ h => h) fun _ w' h => ?_) fun existing w₃ h => ?_
  · exact h ▸ .of_quiet hcalm.toQuiet
  obtain ⟨rfl, -⟩ := h
  cases existing with
  | some existing =>
    -- a row of an earlier attempt is found again, and nothing is charged
    refine ends_quiet_bind hf (mergeSharedWith_touches req.ownerId existing req.sharedWith)
      (by decide) (fun _ _ h => .of_quiet (hcalm.toQuiet.trans h)) fun _ w₄ h₄ => ?_
    have hquiet := hcalm.toQuiet.trans h₄
    exact (ends_quiet hf (buildUploadResponse_touches env existing) (by decide)).mono
      (fun _ _ h => .of_quiet (hquiet.trans h)) fun _ _ h => .of_quiet (hquiet.trans h)
  | none =>
    apply storeNew_attempt hlate hu hsize hcalm
    rw [hread.hasQuotaRow hu, h₂.quotaRows]

theorem upload_attempt (hlate : FailsAfterSave fault) (hu : env.uuidIn req.ownerId = some u) :
    ProgE.Ends (env.failing fault)
      (upload env req.ownerId req.file req.context req.thumbnailFile req.sharedWith) w
      (fun _ => Attempted env req u fault w) (fun _ => Attempted env req u fault w) := by
  have hf := faithful_failing env fault
  refine ends_idle_bind hf (acquireSemaphore_touches req.ownerId) (by decide)
    (fun _ _ h => .of_quiet h.toQuiet) fun _ w₁ h₁ => ?_
  refine ProgE.Ends.ensuring (uploadHeld_attempt hlate hu) (fun _ w' h => ?_) fun _ w' h => ?_
  all_goals
    exact (ends_quiet hf (releaseSemaphore_touches req.ownerId) (by decide)).mono
      (fun _ _ hr => (h.before h₁).after hr) fun _ _ hr => (h.before h₁).after hr

end Attempts

/-! Sequences of attempts -/

inductive RetryStep where
  | attempt (fault : Cmd → Option Fault)
  /-- Time passes or a store forgets between two attempts. -/
  | act (a : Act)

namespace UploadRequest
variable (env : Env) (req : UploadRequest)

/-- One attempt of the upload. -/
def attempt (fault : Cmd → Option Fault) (w : World) :
    Prog.Done Cmd Cmd.Reply World (Except Err UploadMediaResponseDto) :=
  faultyUpload env fault req.ownerId req.file req.context req.thumbnailFile req.sharedWith w

def retryStep (w : World) : RetryStep → World
  | .attempt fault => (req.attempt env fault w).world
  | .act a => a.apply w

/-- The world after the attempts. -/
def retried (w : World) (steps : List RetryStep) : World := steps.foldl (req.retryStep env) w

/-- Every row that an attempt has created gets charged. -/
def AllCharged (u : String) : World → List RetryStep → Prop
  | _, [] => True
  | w, .act a :: steps => AllCharged u (a.apply w) steps
  | w, .attempt fault :: steps =>
    (∀ id, w.media.get id = none → ((req.attempt env fault w).world.media.get id).isSome →
      GetsCharged env req u fault w id) ∧
    AllCharged u (req.attempt env fault w).world steps

end UploadRequest

section Retries
variable {env : Env} {req : UploadRequest} {u : String} {fault : Cmd → Option Fault} {w : World}

theorem attempted_of_attempt (hlate : FailsAfterSave fault) (hu : env.uuidIn req.ownerId = some u)
    (w : World) : Attempted env req u fault w (req.attempt env fault w).world := by
  have hends := (@upload_attempt env fault req u w hlate hu).ends
  split at hends
  · exact hends
  · exact hends

theorem act_books (a : Act) : BooksSettled u w (a.apply w) := by
  cases a <;> simp only [Act.apply] <;> (repeat' split) <;> exact ⟨rfl, rfl⟩

/-- The media of the user have grown by `n` files of this size more than the quota row says. -/
def Uncounted (u : String) (size : ℕ) (n : ℕ) (w w' : World) : Prop :=
  activeTotal u w' - activeTotal u w =
    recorded u w' - recorded u w + n • ((size : ℤ), (1 : ℤ))

theorem Uncounted.of_settled {size : ℕ} {w' : World} (h : BooksSettled u w w') :
    Uncounted u size 0 w w' := by
  unfold Uncounted
  rw [h.active, h.recorded, sub_self, sub_self, zero_nsmul, add_zero]

theorem Uncounted.trans {size n k : ℕ} {w' w'' : World} (h : Uncounted u size n w w')
    (h' : Uncounted u size k w' w'') : Uncounted u size (n + k) w w'' := by
  unfold Uncounted at *
  calc activeTotal u w'' - activeTotal u w
      = (activeTotal u w'' - activeTotal u w') + (activeTotal u w' - activeTotal u w) := by abel
    _ = (recorded u w'' - recorded u w' + k • ((size : ℤ), (1 : ℤ))) +
        (recorded u w' - recorded u w + n • ((size : ℤ), (1 : ℤ))) := by rw [h, h']
    _ = recorded u w'' - recorded u w + (n + k) • ((size : ℤ), (1 : ℤ)) := by
      rw [add_nsmul]
      abel

/-- One attempt adds nothing that is not counted, or one file that it does not charge. -/
theorem attempt_uncounted (hlate : FailsAfterSave fault) (hu : env.uuidIn req.ownerId = some u)
    (w : World) : ∃ n : ℕ,
      (n = 0 ↔ ∀ id, w.media.get id = none →
        ((req.attempt env fault w).world.media.get id).isSome → GetsCharged env req u fault w id) ∧
      Uncounted u req.file.size n w (req.attempt env fault w).world := by
  cases attempted_of_attempt hlate hu w with
  | unsaved hkeys books =>
    refine ⟨0, ⟨fun _ id hid hsome => ?_, fun _ => rfl⟩, .of_settled books⟩
    rw [hkeys id hid] at hsome
    exact absurd hsome (by simp)
  | saved id hnew hrow hkeys active counted uncounted =>
    -- the row that was created is the only one
    have hall : (∀ id', w.media.get id' = none →
        ((req.attempt env fault w).world.media.get id').isSome →
          GetsCharged env req u fault w id') ↔ GetsCharged env req u fault w id := by
      refine ⟨fun h => h id hnew hrow, fun h id' hid' hsome => ?_⟩
      by_cases he : id' = id
      · exact he ▸ h
      · rw [hkeys id' hid' he] at hsome
        exact absurd hsome (by simp)
    rw [hall]
    by_cases hc : GetsCharged env req u fault w id
    · refine ⟨0, ⟨fun _ => hc, fun _ => rfl⟩, ?_⟩
      unfold Uncounted
      rw [active, counted hc, zero_nsmul]
      abel
    · refine ⟨1, ⟨fun h => absurd h (by simp), fun h => absurd h hc⟩, ?_⟩
      unfold Uncounted
      rw [active, uncounted hc, one_nsmul]
      abel

/-- After any number of attempts the quota row misses a file for every row that an attempt has
created and not charged. -/
theorem retried_uncounted (hu : env.uuidIn req.ownerId = some u) (steps : List RetryStep)
    (hlate : ∀ fault, .attempt fault ∈ steps → FailsAfterSave fault) (w : World) :
    ∃ n : ℕ, (n = 0 ↔ req.AllCharged env u w steps) ∧
      Uncounted u req.file.size n w (req.retried env w steps) := by
  induction steps generalizing w with
  | nil => exact ⟨0, ⟨fun _ => trivial, fun _ => rfl⟩, .of_settled ⟨rfl, rfl⟩⟩
  | cons step steps ih =>
    have hlate' : ∀ fault, .attempt fault ∈ steps → FailsAfterSave fault :=
      fun fault hf => hlate fault (List.mem_cons_of_mem _ hf)
    obtain ⟨n, hn, hrest⟩ := ih hlate' (req.retryStep env w step)
    cases step with
    | act a =>
      have hact : Uncounted u req.file.size 0 w (a.apply w) := .of_settled (act_books a)
      refine ⟨n, hn, ?_⟩
      rw [← Nat.zero_add n]
      exact hact.trans hrest
    | attempt fault =>
      obtain ⟨k, hk, hstep⟩ := attempt_uncounted (hlate fault List.mem_cons_self) hu w
      refine ⟨k + n, ?_, hstep.trans hrest⟩
      rw [Nat.add_eq_zero_iff, hn, hk]
      rfl

/-- After any number of attempts with failing steps behind the INSERT, the rows they have created
are counted exactly once if and only if none of these attempts fails to enter its row in the dedup
cache or to charge it. -/
theorem charged_once_iff (env : Env) (req : UploadRequest) (u : String)
    (hu : env.uuidIn req.ownerId = some u) (steps : List RetryStep)
    (hlate : ∀ fault, .attempt fault ∈ steps → FailsAfterSave fault) (w : World) :
    recorded u (req.retried env w steps) - recorded u w =
        activeTotal u (req.retried env w steps) - activeTotal u w ↔
      req.AllCharged env u w steps := by
  obtain ⟨n, hn, hgap⟩ := retried_uncounted hu steps hlate w
  unfold Uncounted at hgap
  rw [← hn, hgap]
  constructor
  · intro h
    have hcount := congrArg Prod.snd (left_eq_add.mp h)
    simpa using hcount
  · rintro rfl
    rw [zero_nsmul, add_zero]

end Retries

/-- The last attempt succeeds. -/
def EndsInSuccess (env : Env) (req : UploadRequest) (w : World) (steps : List RetryStep) : Prop :=
  ∃ before fault, steps = before ++ [.attempt fault] ∧
    (req.attempt env fault (req.retried env w before)).result.isOk = true

/-- An avatar of three bytes. -/
def avatarRequest : UploadRequest := ⟨exampleId 7, threeBytes, .AVATAR, none, none⟩

/-- S3 signs nothing. -/
def presignDown : Cmd → Option Fault
  | .presign _ _ => some ⟨"connection refused", false⟩
  | _ => none

/-- A failed attempt and a retry without failures. -/
theorem failsAfterSave_retry {fault : Cmd → Option Fault} (hfault : FailsAfterSave fault) :
    ∀ f, RetryStep.attempt f ∈ [.attempt fault, .attempt fun _ => none] → FailsAfterSave f := by
  intro f hf
  rcases List.mem_cons.mp hf with he | hf
  · cases he
    exact hfault
  · cases List.mem_singleton.mp hf
    exact fun _ _ => rfl

theorem presignDown_afterSave : FailsAfterSave presignDown := by
  intro c hc
  cases c <;> first | rfl | exact absurd hc (by simp [Cmd.afterSave])

/-- The response of the first attempt fails, after the charge. -/
theorem charged_once_after_failed_response :
    recorded (exampleId 7) (avatarRequest.retried exampleEnv World.empty
        [.attempt presignDown, .attempt fun _ => none]) - recorded (exampleId 7) World.empty =
      activeTotal (exampleId 7) (avatarRequest.retried exampleEnv World.empty
        [.attempt presignDown, .attempt fun _ => none]) - activeTotal (exampleId 7) World.empty := by
  refine (charged_once_iff exampleEnv avatarRequest (exampleId 7) (exampleId_canonical 7)
    [.attempt presignDown, .attempt fun _ => none] (failsAfterSave_retry presignDown_afterSave)
    World.empty).mpr ⟨?_, ?_, trivial⟩
  · exact fun _ _ _ => ⟨rfl, takesEffect_of_none rfl, Or.inr rfl⟩
  · exact fun _ _ _ => ⟨rfl, takesEffect_of_none rfl, Or.inl (by decide +kernel)⟩

/-- Postgres refuses the charge. -/
def chargeDown : Cmd → Option Fault
  | .chargeQuota _ _ => some ⟨"connection terminated", false⟩
  | _ => none

/-- The charge of the first attempt fails; the retry finds the row and charges nothing. -/
theorem retried_upload_uncharged :
    ¬ ∀ (env : Env) (req : UploadRequest) (u : String), env.uuidIn req.ownerId = some u →
      ∀ steps : List RetryStep, (∀ fault, .attempt fault ∈ steps → FailsAfterSave fault) →
      ∀ w, EndsInSuccess env req w steps →
        recorded u (req.retried env w steps) - recorded u w =
          activeTotal u (req.retried env w steps) - activeTotal u w := by
  intro hall
  have hlate : FailsAfterSave chargeDown := by
    intro c hc
    cases c <;> first | rfl | exact absurd hc (by simp [Cmd.afterSave])
  have hsuccess : EndsInSuccess exampleEnv avatarRequest World.empty
      [.attempt chargeDown, .attempt fun _ => none] :=
    ⟨[.attempt chargeDown], fun _ => none, rfl, by decide +kernel⟩
  have hcount := hall exampleEnv avatarRequest (exampleId 7) (exampleId_canonical 7) _
    (failsAfterSave_retry hlate) World.empty hsuccess
  have hrecorded : recorded (exampleId 7) (avatarRequest.retried exampleEnv World.empty
      [.attempt chargeDown, .attempt fun _ => none]) - recorded (exampleId 7) World.empty = 0 := by
    decide +kernel
  have hactive : activeTotal (exampleId 7) (avatarRequest.retried exampleEnv World.empty
      [.attempt chargeDown, .attempt fun _ => none]) - activeTotal (exampleId 7) World.empty =
        (3, 1) := by
    decide +kernel
  rw [hrecorded, hactive] at hcount
  exact absurd hcount (by decide)

end WhisprMedia
