import WhisprMedia.FailingSteps
import WhisprMedia.StorageAlignment

/-! The objects of an upload that throws. A failed INSERT deletes what was put for it; what throws
between the PUT of the blob and the INSERT leaves the blob behind. -/
namespace WhisprMedia
open Awaiting Keyed MediaService QuotaService StorageService

/-- The commands that draw an id and put objects. -/
def Cmd.stores : Cmd → Bool
  | .randomUUID | .putObject _ _ => true
  | _ => false

/-- The families that have such a command. -/
def Family.stores : Family → Bool
  | .draws | .bucket => true
  | _ => false

/-- The request has written an object under the key, whatever the PUT was answered. -/
def Wrote (fault : Cmd → Option Fault) (log : ServiceLog) (key : String) : Prop :=
  ∃ object r, (⟨.putObject key object, r⟩ : Event Cmd Cmd.Reply) ∈ log ∧
    TakesEffect fault (.putObject key object)

/-- The thumbnail of the upload is refused, or its PUT throws. -/
def ThumbnailFails (fault : Cmd → Option Fault) (ownerId id : String)
    (thumbnailFile : Option File) : Prop :=
  ∃ thumbnail ∈ thumbnailFile, validateThumbnail thumbnail ≠ .ok () ∨
    ∀ path, buildPath .thumbnails ownerId id = .ok path →
      fault (.putObject path (fileObject thumbnail)) ≠ none

/-- The blob is in the bucket, and the upload has thrown before the INSERT of the row: the PUT was
answered with an error, or the thumbnail fails. -/
def Interrupted (fault : Cmd → Option Fault) (ownerId : String) (file : File)
    (context : MediaContext) (thumbnailFile : Option File) (log : ServiceLog) : Prop :=
  ∃ id key r, (⟨.randomUUID, .ok id⟩ : Event Cmd Cmd.Reply) ∈ log ∧
    buildPath (contextToStorageContext context) ownerId id = .ok key ∧
    (⟨.putObject key (fileObject file), r⟩ : Event Cmd Cmd.Reply) ∈ log ∧
    TakesEffect fault (.putObject key (fileObject file)) ∧
    (fault (.putObject key (fileObject file)) ≠ none ∨
      ThumbnailFails fault ownerId id thumbnailFile)

section Logs
variable {fault : Cmd → Option Fault} {ownerId : String} {file : File} {context : MediaContext}
  {thumbnailFile : Option File} {l l' : ServiceLog} {key : String}

/-- Only the storing commands of a log matter. -/
def SameStores (l l' : ServiceLog) : Prop :=
  ∀ e : Event Cmd Cmd.Reply, e.1.stores = true → e ∈ l → e ∈ l'

theorem Wrote.of_stores (h : Wrote fault l key) (hs : SameStores l l') : Wrote fault l' key := by
  obtain ⟨object, r, he, ht⟩ := h
  exact ⟨object, r, hs _ rfl he, ht⟩

theorem Interrupted.of_stores (h : Interrupted fault ownerId file context thumbnailFile l)
    (hs : SameStores l l') : Interrupted fault ownerId file context thumbnailFile l' := by
  obtain ⟨id, key, r, hid, hkey, hput, hrest⟩ := h
  exact ⟨id, key, r, hs _ rfl hid, hkey, hs _ rfl hput, hrest⟩

theorem sameStores_right : SameStores l (l' ++ l) := fun _ _ he => List.mem_append.mpr (Or.inr he)

theorem sameStores_left : SameStores l (l ++ l') := fun _ _ he => List.mem_append.mpr (Or.inl he)

theorem sameStores_of_append (h : ∀ e ∈ l, e.1.stores = false) : SameStores (l ++ l') l' := by
  intro e hs he
  refine (List.mem_append.mp he).resolve_left fun hl => ?_
  rw [h e hl] at hs
  exact absurd hs (by simp)

theorem sameStores_of_append_right (h : ∀ e ∈ l', e.1.stores = false) :
    SameStores (l ++ l') l := by
  intro e hs he
  refine (List.mem_append.mp he).resolve_right fun hl => ?_
  rw [h e hl] at hs
  exact absurd hs (by simp)

theorem not_wrote_of_quiet (h : ∀ e ∈ l, e.1.stores = false) : ¬ Wrote fault l key := by
  rintro ⟨object, r, he, -⟩
  exact absurd (h _ he) (by simp [Cmd.stores])

theorem stores_of_family {c : Cmd} (h : c.family.stores = false) : c.stores = false := by
  cases c <;> first | rfl | exact absurd h (by simp [Cmd.family, Family.stores])

end Logs

/-! From the PUT of the blob to the INSERT -/

section Store
variable {env : Env} {fault : Cmd → Option Fault} {ownerId id path : String} {file : File}
  {context : MediaContext} {thumbnailFile : Option File} {w : World}

theorem failing_error {c : Cmd} {e : String} {u : World} (hc : ∀ v, (env.exec c v).1.isOk = true)
    (h : env.failing fault c w = (.error e, u)) : fault c ≠ none := by
  intro hnone
  rw [failing_none hnone] at h
  have hok := hc w
  rw [h] at hok
  exact Bool.noConfusion hok

/-- A PUT, whatever it is answered, writes its key or nothing. -/
theorem failing_put {key : String} {object : StoredObject} {a : (Cmd.putObject key object).Reply}
    {u : World} (h : env.failing fault (.putObject key object) w = (a, u)) :
    u.media = w.media ∧ (∀ k, (w.bucket k).isSome = true → (u.bucket k).isSome = true) ∧
      (TakesEffect fault (.putObject key object) → (u.bucket key).isSome = true) := by
  have hput : (env.exec (.putObject key object) w).2.bucket = Function.update w.bucket key (some object) := rfl
  have hworld := faithful_failing env fault (.putObject key object) w
  have heffect := @failing_takesEffect env fault (.putObject key object) w
  rw [h] at hworld heffect
  refine ⟨?_, fun k hk => ?_, fun ht => ?_⟩
  · rcases hworld with rfl | rfl <;> rfl
  · rcases hworld with rfl | rfl
    · exact hk
    · rw [hput]
      by_cases hkey : k = key
      · rw [hkey, Function.update_self]
        rfl
      · rwa [Function.update_of_ne hkey]
  · obtain rfl := heffect ht
    rw [hput, Function.update_self]
    rfl

/-- The thumbnail is stored under its own key, or it fails, and the blob stays. -/
theorem storeThumbnail_logs (hblob : (w.bucket path).isSome = true) :
    ProgE.Logs (env.failing fault) (storeThumbnail ownerId id thumbnailFile) w
      (fun thumbnailPath l w' => ¬ ThumbnailFails fault ownerId id thumbnailFile ∧
        w'.media = w.media ∧ (∀ a, (⟨.randomUUID, a⟩ : Event Cmd Cmd.Reply) ∉ l) ∧
        ∀ key, Wrote fault l key → truthy thumbnailPath = some key)
      (fun _ l w' => ThumbnailFails fault ownerId id thumbnailFile ∧ w'.media = w.media ∧
        (∀ a, (⟨.randomUUID, a⟩ : Event Cmd Cmd.Reply) ∉ l) ∧
        (w'.bucket path).isSome = true) := by
  cases thumbnailFile with
  | none =>
    refine ProgE.logs_pure ⟨?_, rfl, fun _ => List.not_mem_nil, fun key hw => ?_⟩
    · rintro ⟨thumbnail, ht, -⟩
      exact absurd ht (by simp)
    · exact absurd hw (not_wrote_of_quiet fun _ he => absurd he List.not_mem_nil)
  | some thumbnail =>
    refine logs_sync_bind (fun e he => ?_) fun _ hvalid => logs_sync_bind (fun e he => ?_)
      fun p hp => logs_await_bind (fun v u hv => ?_) fun e u he => ?_
    · refine ⟨⟨thumbnail, rfl, Or.inl ?_⟩, rfl, fun _ => List.not_mem_nil, hblob⟩
      rw [he]
      simp
    · refine ⟨⟨thumbnail, rfl, Or.inr fun p hp => ?_⟩, rfl, fun _ => List.not_mem_nil, hblob⟩
      exact absurd (he.symm.trans hp) (by simp)
    · obtain ⟨hf, -⟩ := failing_ok hv
      refine ProgE.logs_pure ⟨?_, (failing_put hv).1, fun a => by simp, fun key hw => ?_⟩
      · -- the thumbnail is valid, and its PUT has been answered
        rintro ⟨thumbnail', ht, hbad | hbad⟩
        · obtain rfl := Option.some.inj ht
          exact hbad hvalid
        · obtain rfl := Option.some.inj ht
          exact hbad p hp hf
      · obtain ⟨object, r, he, -⟩ := hw
        have hcmd := congrArg (fun e : Event Cmd Cmd.Reply => e.1) (List.mem_singleton.mp he)
        obtain rfl : key = p := (Cmd.putObject.inj hcmd).1
        have hne : key ≠ "" := PathOf.ne_empty ⟨_, _, hp⟩
        simp [truthy, hne]
    · obtain ⟨hmedia, hkept, -⟩ := failing_put he
      refine ⟨⟨thumbnail, rfl, Or.inr fun p' hp' => ?_⟩, hmedia, fun a => by simp, hkept path hblob⟩
      obtain rfl := Except.ok.inj (hp.symm.trans hp')
      exact failing_error (fun _ => rfl) he

/-- An INSERT commits a row, or it throws and has done nothing. -/
theorem failing_saveMedia {user : String} {media : Media} {a : (Cmd.saveMedia user media).Reply}
    {u : World} (h : env.failing fault (.saveMedia user media) w = (a, u)) :
    NewRow w u ∨ u = w ∧ ∃ e, a = .error e := by
  cases hf : fault (.saveMedia user media) with
  | none =>
    rw [failing_none hf] at h
    rcases exec_saveMedia h with ⟨m, -, -, -, hfresh, rfl⟩ | ⟨e, rfl, rfl⟩
    · exact Or.inl (newRow_insert hfresh)
    · exact Or.inr ⟨rfl, e, rfl⟩
  | some f =>
    rw [failing_some hf] at h
    obtain ⟨rfl, rfl⟩ := Prod.mk.inj h
    by_cases ha : f.applied = true
    · -- the transaction may be committed although it is answered with an error
      rw [if_pos ha]
      cases hexec : env.exec (.saveMedia user media) w with
      | mk r u' =>
        rcases exec_saveMedia hexec with ⟨m, -, -, -, hfresh, rfl⟩ | ⟨e, -, rfl⟩
        · exact Or.inl (newRow_insert hfresh)
        · exact Or.inr ⟨rfl, f.message, rfl⟩
    · rw [if_neg ha]
      exact Or.inr ⟨rfl, f.message, rfl⟩

/-- With S3 deletes that succeed, the clean-up leaves no object. -/
theorem deleteStored_logs (hdelete : ∀ key, fault (.deleteObject key) = none)
    {thumbnailPath : Option String} :
    ProgE.Logs (env.failing fault) (deleteStored path thumbnailPath) w
      (fun _ l w' => (∀ e ∈ l, e.1.stores = false) ∧ w'.media = w.media ∧ w'.bucket path = none ∧
        ∀ key, truthy thumbnailPath = some key → w'.bucket key = none)
      (fun _ _ _ => False) := by
  have hquietly (key : String) (v : World) : ProgE.Logs (env.failing fault) (deleteQuietly key) v
      (fun _ l v' => (∀ e ∈ l, e.1.stores = false) ∧
        v' = { v with bucket := Function.update v.bucket key none }) fun _ _ _ => False := by
    refine ProgE.Logs.tryCatch (E := fun _ _ _ => False) (logs_await (fun _ u hu => ?_)
      fun e u hu => ?_) fun _ _ _ h => h.elim
    · rw [failing_none (hdelete key)] at hu
      obtain ⟨-, rfl⟩ := Prod.mk.inj hu
      refine ⟨fun e he => ?_, rfl⟩
      rw [List.mem_singleton.mp he]
      rfl
    · exact absurd (hdelete key) (failing_error (fun _ => rfl) hu)
  unfold deleteStored
  refine ProgE.Logs.bind (hquietly path w) (fun _ l w₁ h₁ => ?_) fun _ _ _ h => h
  cases hp : truthy thumbnailPath with
  | none =>
    refine ProgE.logs_pure ⟨?_, by rw [h₁.2], ?_, fun _ h => absurd h (by simp)⟩
    · rw [List.append_nil]
      exact h₁.1
    · rw [h₁.2]
      exact Function.update_self _ _ _
  | some p =>
    refine (hquietly p w₁).mono (fun _ l' w₂ h₂ => ?_) fun _ _ _ h => h
    refine ⟨List.forall_mem_append.mpr ⟨h₁.1, h₂.1⟩, by rw [h₂.2, h₁.2], ?_, fun key hkey => ?_⟩
    · rw [h₂.2, h₁.2]
      -- the second delete leaves the first path empty
      by_cases hsame : path = p
      · rw [hsame]
        exact Function.update_self _ _ _
      · exact (Function.update_of_ne hsame _ _).trans (Function.update_self _ _ _)
    · obtain rfl := Option.some.inj hkey
      rw [h₂.2]
      exact Function.update_self _ _ _

/-- The INSERT commits a row, or the objects are deleted again. -/
theorem saveMedia_logs (hdelete : ∀ key, fault (.deleteObject key) = none) {media : Media} :
    ProgE.Logs (env.failing fault) (saveMedia ownerId media) w
      (fun _ l w' => (∀ e ∈ l, e.1.stores = false) ∧ NewRow w w')
      (fun _ l w' => (∀ e ∈ l, e.1.stores = false) ∧ (NewRow w w' ∨
        w'.bucket media.storagePath = none ∧
          ∀ key, truthy media.thumbnailPath = some key → w'.bucket key = none)) := by
  have hone (a : (Cmd.saveMedia ownerId media).Reply) :
      ∀ e ∈ [(⟨.saveMedia ownerId media, a⟩ : Event Cmd Cmd.Reply)], e.1.stores = false := by
    intro e he
    rw [List.mem_singleton.mp he]
    rfl
  refine ProgE.Logs.tryCatch (E := fun _ l w' => (∀ e ∈ l, e.1.stores = false) ∧
    (NewRow w w' ∨ w' = w)) (logs_await (fun v u hv => ⟨hone _, ?_⟩) fun e u he => ⟨hone _, ?_⟩)
    fun e l w₁ h₁ => ?_
  · rcases failing_saveMedia hv with hnew | ⟨-, e, he⟩
    · exact hnew
    · exact absurd he (by simp)
  · exact (failing_saveMedia he).imp_right fun h => h.1
  · refine ProgE.Logs.bind (deleteStored_logs hdelete) (fun _ l' w₂ h₂ => ?_) fun _ _ _ h => h.elim
    refine ProgE.logs_throw ⟨?_, ?_⟩
    · rw [List.append_nil]
      exact List.forall_mem_append.mpr ⟨h₁.1, h₂.1⟩
    · rcases h₁.2 with ⟨k, hk, hk'⟩ | rfl
      · exact Or.inl ⟨k, hk, by rw [h₂.2.1]; exact hk'⟩
      · exact Or.inr h₂.2.2

/-- Before the upload throws, a row was committed, or every object it has written is gone. -/
structure CleanedUp (fault : Cmd → Option Fault) (ownerId : String) (file : File)
    (context : MediaContext) (thumbnailFile : Option File) (w : World) (l : ServiceLog)
    (w' : World) : Prop where
  finished : ¬ Interrupted fault ownerId file context thumbnailFile l
  clean : NewRow w w' ∨ ∀ key, Wrote fault l key → w'.bucket key = none

/-- An object of the upload is left, and no row. -/
structure LeftBehind (fault : Cmd → Option Fault) (ownerId : String) (file : File)
    (context : MediaContext) (thumbnailFile : Option File) (w : World) (l : ServiceLog)
    (w' : World) : Prop where
  interrupted : Interrupted fault ownerId file context thumbnailFile l
  media : w'.media = w.media
  orphan : ∃ key, Wrote fault l key ∧ (w'.bucket key).isSome = true

/-- How an upload ends that throws. -/
def ThrownAfter (fault : Cmd → Option Fault) (ownerId : String) (file : File)
    (context : MediaContext) (thumbnailFile : Option File) (w : World) (l : ServiceLog)
    (w' : World) : Prop :=
  CleanedUp fault ownerId file context thumbnailFile w l w' ∨
    LeftBehind fault ownerId file context thumbnailFile w l w'

theorem not_interrupted_of_not_wrote {l : ServiceLog} (h : ∀ key, ¬ Wrote fault l key) :
    ¬ Interrupted fault ownerId file context thumbnailFile l := by
  rintro ⟨id, key, r, -, -, hput, ht, -⟩
  exact h key ⟨_, r, hput, ht⟩

theorem cleanedUp_of_not_wrote {l : ServiceLog} {w' : World} (h : ∀ key, ¬ Wrote fault l key) :
    CleanedUp fault ownerId file context thumbnailFile w l w' :=
  ⟨not_interrupted_of_not_wrote h, Or.inr fun key hw => absurd hw (h key)⟩

theorem NewRow.of_media {w₀ w' : World} (h : NewRow w w') (hm : w.media = w₀.media) :
    NewRow w₀ w' := by
  obtain ⟨k, hk, hk'⟩ := h
  exact ⟨k, hm ▸ hk, hk'⟩

theorem computeExpiresAt_logs (hnow : fault .now = none) :
    ProgE.Logs (env.failing fault) (computeExpiresAt env context) w
      (fun _ l w' => (∀ e ∈ l, e.1.stores = false) ∧ w' = w) fun _ _ _ => False := by
  unfold computeExpiresAt
  split
  · refine logs_await_bind (fun v u hv => ?_) fun e u he => ?_
    · rw [failing_none hnow] at hv
      obtain ⟨-, rfl⟩ := Prod.mk.inj hv
      refine ProgE.logs_pure ⟨fun e he => ?_, rfl⟩
      rw [List.mem_singleton.mp he]
      rfl
    · exact absurd hnow (failing_error (fun _ => rfl) he)
  · exact ProgE.logs_pure ⟨fun _ he => absurd he List.not_mem_nil, rfl⟩

/-- What is written in a log that starts with the PUT of the blob. -/
theorem wrote_after_put {l : ServiceLog} {key : String} {object : StoredObject}
    {a : (Cmd.putObject path object).Reply}
    (h : Wrote fault (⟨.randomUUID, .ok id⟩ :: ⟨.putObject path object, a⟩ :: l) key) :
    (key = path ∧ TakesEffect fault (.putObject path object)) ∨ Wrote fault l key := by
  obtain ⟨object', r, he, ht⟩ := h
  rcases List.mem_cons.mp he with he | he
  · exact absurd (congrArg (fun e : Event Cmd Cmd.Reply => e.1) he) (by simp)
  rcases List.mem_cons.mp he with he | he
  · have hcmd := congrArg (fun e : Event Cmd Cmd.Reply => e.1) he
    obtain ⟨rfl, rfl⟩ := Cmd.putObject.inj hcmd
    exact Or.inl ⟨rfl, ht⟩
  · exact Or.inr ⟨object', r, he, ht⟩

/-- Once the PUT of the blob is answered and the thumbnail stored, nothing interrupts the upload. -/
theorem not_interrupted_after_put {l : ServiceLog} {a : (Cmd.putObject path (fileObject file)).Reply}
    (hpath : buildPath (contextToStorageContext context) ownerId id = .ok path)
    (hserved : fault (.putObject path (fileObject file)) = none)
    (hthumb : ¬ ThumbnailFails fault ownerId id thumbnailFile)
    (hl : ∀ r, (⟨.randomUUID, r⟩ : Event Cmd Cmd.Reply) ∉ l) :
    ¬ Interrupted fault ownerId file context thumbnailFile
      (⟨.randomUUID, .ok id⟩ :: ⟨.putObject path (fileObject file), a⟩ :: l) := by
  rintro ⟨id', key, r, hid, hkey, -, -, hfails⟩
  obtain rfl : id' = id := by
    rcases List.mem_cons.mp hid with hid | hid
    · simpa using hid
    · rcases List.mem_cons.mp hid with hid | hid
      · exact absurd (congrArg (fun e : Event Cmd Cmd.Reply => e.1) hid) (by simp)
      · exact absurd hid (hl _)
  obtain rfl := Except.ok.inj (hpath.symm.trans hkey)
  rcases hfails with hfails | hfails
  · exact hfails hserved
  · exact hthumb hfails

/-- A fresh upload inserts a row, or throws; it leaves the blob only if it is interrupted. -/
theorem storeNew_logs (hnow : fault .now = none) (huuid : fault .randomUUID = none)
    (hdelete : ∀ key, fault (.deleteObject key) = none) {sharedWith : Option (List String)} :
    ProgE.Logs (env.failing fault)
      (storeNew env ownerId file context thumbnailFile sharedWith) w
      (fun _ l w' => ¬ Interrupted fault ownerId file context thumbnailFile l ∧ NewRow w w')
      (fun _ => ThrownAfter fault ownerId file context thumbnailFile w) := by
  refine logs_await_bind (fun id u hid => ?_) fun e u he =>
    absurd huuid (failing_error (fun _ => rfl) he)
  rw [failing_none huuid] at hid
  have hmedia : u.media = w.media := by rw [← (Prod.mk.inj hid).2]
  clear hid
  refine logs_sync_bind (fun e _ => Or.inl (cleanedUp_of_not_wrote ?_)) fun path hpath => ?_
  · rintro key ⟨object, r, he, -⟩
    simp at he
  refine logs_await_bind (fun v u₁ hput => ?_) fun e u₁ hput => ?_
  · obtain ⟨hserved, -⟩ := failing_ok hput
    have heffect := takesEffect_of_none hserved
    obtain ⟨hmedia₁, -, hblob⟩ := failing_put hput
    replace hblob := hblob heffect
    replace hmedia₁ := hmedia₁.trans hmedia
    refine ProgE.Logs.bind (storeThumbnail_logs hblob) (fun thumbnailPath l₁ w₁ h₁ => ?_)
      fun e l₁ w₁ h₁ => ?_
    · obtain ⟨hthumb, hm₁, huuid₁, hwrote₁⟩ := h₁
      refine ProgE.Logs.bind (computeExpiresAt_logs hnow) (fun expiresAt l₂ w₂ h₂ => ?_)
        fun _ _ _ h => h.elim
      obtain ⟨hl₂, rfl⟩ := h₂
      have hmedia₂ : w₂.media = w.media := hm₁.trans hmedia₁
      have hfinished (l₃ : ServiceLog) (hl₃ : ∀ e ∈ l₃, e.1.stores = false) :
          ¬ Interrupted fault ownerId file context thumbnailFile
            (⟨.randomUUID, .ok id⟩ :: ⟨.putObject path (fileObject file), .ok v⟩ ::
              (l₁ ++ (l₂ ++ l₃))) := by
        refine not_interrupted_after_put hpath hserved hthumb fun r hr => ?_
        rcases List.mem_append.mp hr with hr | hr
        · exact huuid₁ r hr
        · have hquiet := List.forall_mem_append.mpr ⟨hl₂, hl₃⟩ _ hr
          exact absurd hquiet (by simp [Cmd.stores])
      refine ProgE.Logs.bind (saveMedia_logs hdelete) (fun _ l₃ w₃ h₃ => ?_) fun e l₃ w₃ h₃ => ?_
      · refine ProgE.logs_pure ⟨?_, h₃.2.of_media hmedia₂⟩
        rw [List.append_nil]
        exact hfinished l₃ h₃.1
      · refine Or.inl ⟨hfinished l₃ h₃.1, ?_⟩
        rcases h₃.2 with hnew | ⟨hgone, hgone'⟩
        · exact Or.inl (hnew.of_media hmedia₂)
        · -- the blob and the thumbnail are deleted, and nothing else was written
          refine Or.inr fun key hw => ?_
          rcases wrote_after_put hw with ⟨rfl, -⟩ | hw
          · exact hgone
          · refine hgone' key (hwrote₁ key (hw.of_stores (sameStores_of_append_right ?_)))
            exact List.forall_mem_append.mpr ⟨hl₂, h₃.1⟩
    · obtain ⟨hthumb, hm₁, -, hkept⟩ := h₁
      refine Or.inr ⟨⟨id, path, .ok v, List.mem_cons_self, hpath,
        List.mem_cons_of_mem _ List.mem_cons_self, heffect, Or.inr hthumb⟩, hm₁.trans hmedia₁, path,
        ⟨_, .ok v, List.mem_cons_of_mem _ List.mem_cons_self, heffect⟩, hkept⟩
  · -- the PUT has thrown: the object is there or not
    obtain ⟨hmedia₁, -, hblob⟩ := failing_put hput
    have hfault := failing_error (fun _ => rfl) hput
    by_cases heffect : TakesEffect fault (.putObject path (fileObject file))
    · refine Or.inr ⟨⟨id, path, .error e, List.mem_cons_self, hpath,
        List.mem_cons_of_mem _ List.mem_cons_self, heffect, Or.inl hfault⟩, hmedia₁.trans hmedia,
        path, ⟨_, .error e, List.mem_cons_of_mem _ List.mem_cons_self, heffect⟩, hblob heffect⟩
    · refine Or.inl (cleanedUp_of_not_wrote fun key hw => ?_)
      rcases wrote_after_put hw with ⟨-, ht⟩ | hw
      · exact heffect ht
      · exact not_wrote_of_quiet (fun _ he => absurd he List.not_mem_nil) hw

end Store

/-! The whole upload -/

section Upload
variable {env : Env} {fault : Cmd → Option Fault} {ownerId : String} {file : File}
  {context : MediaContext} {thumbnailFile : Option File} {sharedWith : Option (List String)}
  {w w₀ w' w'' : World} {l l' : ServiceLog} {α β : Type}

theorem CleanedUp.before (h : CleanedUp fault ownerId file context thumbnailFile w l w')
    (hl : ∀ e ∈ l', e.1.stores = false) (hm : w.media = w₀.media) :
    CleanedUp fault ownerId file context thumbnailFile w₀ (l' ++ l) w' := by
  refine ⟨fun hi => h.finished (hi.of_stores (sameStores_of_append hl)), ?_⟩
  rcases h.clean with hnew | hgone
  · exact Or.inl (hnew.of_media hm)
  · exact Or.inr fun key hw => hgone key (hw.of_stores (sameStores_of_append hl))

theorem CleanedUp.after (h : CleanedUp fault ownerId file context thumbnailFile w l w')
    (hl : ∀ e ∈ l', e.1.stores = false) (hm : w''.media = w'.media) (hb : w''.bucket = w'.bucket) :
    CleanedUp fault ownerId file context thumbnailFile w (l ++ l') w'' := by
  refine ⟨fun hi => h.finished (hi.of_stores (sameStores_of_append_right hl)), ?_⟩
  rcases h.clean with ⟨k, hk, hk'⟩ | hgone
  · exact Or.inl ⟨k, hk, by rw [hm]; exact hk'⟩
  · refine Or.inr fun key hw => ?_
    rw [hb]
    exact hgone key (hw.of_stores (sameStores_of_append_right hl))

theorem ThrownAfter.before (h : ThrownAfter fault ownerId file context thumbnailFile w l w')
    (hl : ∀ e ∈ l', e.1.stores = false) (hm : w.media = w₀.media) :
    ThrownAfter fault ownerId file context thumbnailFile w₀ (l' ++ l) w' := by
  refine h.imp (fun hc => hc.before hl hm) fun hleft => ?_
  obtain ⟨key, hw, hkey⟩ := hleft.orphan
  exact ⟨hleft.interrupted.of_stores sameStores_right, hleft.media.trans hm, key,
    hw.of_stores sameStores_right, hkey⟩

theorem ThrownAfter.after (h : ThrownAfter fault ownerId file context thumbnailFile w l w')
    (hl : ∀ e ∈ l', e.1.stores = false) (hm : w''.media = w'.media) (hb : w''.bucket = w'.bucket) :
    ThrownAfter fault ownerId file context thumbnailFile w (l ++ l') w'' := by
  refine h.imp (fun hc => hc.after hl hm hb) fun hleft => ?_
  obtain ⟨key, hw, hkey⟩ := hleft.orphan
  exact ⟨hleft.interrupted.of_stores sameStores_left, hm.trans hleft.media, key,
    hw.of_stores sameStores_left, by rw [hb]; exact hkey⟩

theorem failing_bucket {c : Cmd} (hc : c.family ≠ .bucket) :
    (env.failing fault c w).2.bucket = w.bucket := by
  rcases faithful_failing env fault c w with he | he
  · rw [he]
  · rw [he, exec_bucket hc]

/-- A part that neither draws an id nor addresses the bucket. -/
theorem quiet_logs {F : List Family} {x : Svc α} (hx : Touches F x)
    (hF : ∀ f ∈ F, f.stores = false) :
    ProgE.Logs (env.failing fault) x w
      (fun _ l w' => w'.bucket = w.bucket ∧ ∀ e ∈ l, e.1.stores = false)
      (fun _ l w' => w'.bucket = w.bucket ∧ ∀ e ∈ l, e.1.stores = false) := by
  refine ((ends_of_touches (S := fun u v => v.bucket = u.bucket) hx (fun _ => rfl)
    (fun _ _ _ h h' => h'.trans h) fun c u hc => failing_bucket ?_).logs
      (hx.issues.mono fun c hc => stores_of_family (hF _ hc)))
  intro hbucket
  have h := hF _ hc
  rw [hbucket] at h
  exact absurd h (by decide)

/-- A part that does not write rows either. -/
theorem calm_logs {F : List Family} {x : Svc α} (hx : Touches F x)
    (hF : ∀ f ∈ F, f.stores = false ∧ f.writesMedia = false) :
    ProgE.Logs (env.failing fault) x w
      (fun _ l w' => (w'.media = w.media ∧ w'.bucket = w.bucket) ∧ ∀ e ∈ l, e.1.stores = false)
      (fun _ l w' => (w'.media = w.media ∧ w'.bucket = w.bucket) ∧
        ∀ e ∈ l, e.1.stores = false) := by
  have hmedia := ends_of_touches (h := env.failing fault) (w := w)
    (S := fun u v => v.media = u.media) hx (fun _ => rfl) (fun _ _ _ h h' => h'.trans h)
    fun c u hc => failing_media (hF _ hc).2
  have hbucket := ends_of_touches (h := env.failing fault) (w := w)
    (S := fun u v => v.bucket = u.bucket) hx (fun _ => rfl) (fun _ _ _ h h' => h'.trans h)
    fun c u hc => failing_bucket (fun hb => by simpa [hb, Family.stores] using (hF _ hc).1)
  exact (hmedia.and hbucket).logs (hx.issues.mono fun c hc => stores_of_family (hF _ hc).1)

/-- A calm part before the objects are put. -/
theorem calm_before {F : List Family} {x : Svc α} {f : α → Svc β} (hx : Touches F x)
    (hF : ∀ f ∈ F, f.stores = false ∧ f.writesMedia = false)
    (hf : ∀ a u, ProgE.Logs (env.failing fault) (f a) u
      (fun _ => CleanedUp fault ownerId file context thumbnailFile u)
      fun _ => ThrownAfter fault ownerId file context thumbnailFile u) :
    ProgE.Logs (env.failing fault) (x >>= f) w
      (fun _ => CleanedUp fault ownerId file context thumbnailFile w)
      (fun _ => ThrownAfter fault ownerId file context thumbnailFile w) := by
  refine ProgE.Logs.bind (calm_logs hx hF) (fun a l u hu => ?_) fun e l u hu => Or.inl ?_
  · exact (hf a u).mono (fun _ _ _ h => h.before hu.2 hu.1.1) fun _ _ _ h => h.before hu.2 hu.1.1
  · exact cleanedUp_of_not_wrote fun key => not_wrote_of_quiet hu.2

theorem uploadHeld_logs (hnow : fault .now = none) (huuid : fault .randomUUID = none)
    (hdelete : ∀ key, fault (.deleteObject key) = none) :
    ProgE.Logs (env.failing fault)
      (uploadHeld env ownerId file context thumbnailFile sharedWith) w
      (fun _ => CleanedUp fault ownerId file context thumbnailFile w)
      (fun _ => ThrownAfter fault ownerId file context thumbnailFile w) := by
  refine calm_before (authorizeGroupIconUpload_touches env context ownerId) (by decide) fun _ u₁ => ?_
  refine calm_before (enforceQuota_touches ownerId _) (by decide) fun _ u₂ => ?_
  refine calm_before (validateFile_touches env file context) (by decide) fun _ u₃ => ?_
  refine calm_before (findDuplicate_touches ownerId _) (by decide) fun existing u₄ => ?_
  cases existing with
  | some existing =>
    -- a dedup hit stores nothing
    refine ProgE.Logs.bind (quiet_logs (mergeSharedWith_touches ownerId existing sharedWith)
      (by decide)) (fun _ l u hu => ?_) fun _ l u hu =>
        Or.inl (cleanedUp_of_not_wrote fun key => not_wrote_of_quiet hu.2)
    refine (quiet_logs (buildUploadResponse_touches env existing) (by decide)).mono
      (fun _ l' u' hu' => ?_) fun _ l' u' hu' => Or.inl ?_
    all_goals
      exact cleanedUp_of_not_wrote fun key =>
        not_wrote_of_quiet (List.forall_mem_append.mpr ⟨hu.2, hu'.2⟩)
  | none =>
    refine ProgE.Logs.bind (storeNew_logs hnow huuid hdelete) (fun media l u hu => ?_)
      fun _ _ _ h => h
    have hstored : CleanedUp fault ownerId file context thumbnailFile u₄ l u :=
      ⟨hu.1, Or.inl hu.2⟩
    refine (calm_logs (afterStore_touches env ownerId file _ media) (by decide)).mono
      (fun _ l' u' hu' => ?_) fun _ l' u' hu' => Or.inl ?_
    all_goals exact hstored.after hu'.2 hu'.1.1 hu'.1.2

theorem upload_logs (hnow : fault .now = none) (huuid : fault .randomUUID = none)
    (hdelete : ∀ key, fault (.deleteObject key) = none) :
    ProgE.Logs (env.failing fault)
      (upload env ownerId file context thumbnailFile sharedWith) w
      (fun _ => CleanedUp fault ownerId file context thumbnailFile w)
      (fun _ => ThrownAfter fault ownerId file context thumbnailFile w) := by
  refine calm_before (acquireSemaphore_touches ownerId) (by decide) fun _ u => ?_
  have hrelease (v : World) := @calm_logs env fault v Unit _ _ (releaseSemaphore_touches ownerId)
    (by decide)
  refine ProgE.Logs.ensuring (uploadHeld_logs hnow huuid hdelete) (fun _ l v hv => ?_)
    fun e l v hv => ?_
  · exact (hrelease v).mono (fun _ l' v' hv' => hv.after hv'.2 hv'.1.1 hv'.1.2)
      fun _ l' v' hv' => Or.inl (hv.after hv'.2 hv'.1.1 hv'.1.2)
  · exact (hrelease v).mono (fun _ l' v' hv' => hv.after hv'.2 hv'.1.1 hv'.1.2)
      fun _ l' v' hv' => hv.after hv'.2 hv'.1.1 hv'.1.2

end Upload

/-- An upload while dependencies fail. -/
def faultyUpload (env : Env) (fault : Cmd → Option Fault) (ownerId : String) (file : File)
    (context : MediaContext) (thumbnailFile : Option File) (sharedWith : Option (List String))
    (w : World) : Prog.Done Cmd Cmd.Reply World (Except Err UploadMediaResponseDto) :=
  Prog.run (env.failing fault) (upload env ownerId file context thumbnailFile sharedWith).run w

/-- If the upload has thrown and no row was committed, every object it has written is gone. -/
def LeavesNoOrphan (fault : Cmd → Option Fault) (w : World)
    (d : Prog.Done Cmd Cmd.Reply World (Except Err UploadMediaResponseDto)) : Prop :=
  (∃ e, d.result = .error e) → ¬ NewRow w d.world →
    ∀ key, Wrote fault d.log key → d.world.bucket key = none

/-- Whatever fails but the S3 deletes of the clean-up: an upload leaves no orphan if and only if it
is not interrupted between the PUT of the blob and the INSERT of the row. -/
theorem upload_leaves_no_orphan_iff (env : Env) (fault : Cmd → Option Fault) (ownerId : String)
    (file : File) (context : MediaContext) (thumbnailFile : Option File)
    (sharedWith : Option (List String)) (w : World) (hnow : fault .now = none)
    (huuid : fault .randomUUID = none) (hdelete : ∀ key, fault (.deleteObject key) = none) :
    LeavesNoOrphan fault w
        (faultyUpload env fault ownerId file context thumbnailFile sharedWith w) ↔
      ¬ Interrupted fault ownerId file context thumbnailFile
        (faultyUpload env fault ownerId file context thumbnailFile sharedWith w).log := by
  have hlogs := (@upload_logs env fault ownerId file context thumbnailFile sharedWith w hnow huuid
    hdelete).logs
  have hclean {d : Prog.Done Cmd Cmd.Reply World (Except Err UploadMediaResponseDto)}
      (h : CleanedUp fault ownerId file context thumbnailFile w d.log d.world) :
      LeavesNoOrphan fault w d ↔ ¬ Interrupted fault ownerId file context thumbnailFile d.log :=
    ⟨fun _ => h.finished, fun _ _ hnew => h.clean.resolve_left hnew⟩
  unfold faultyUpload
  split at hlogs
  · exact hclean hlogs
  · next e he =>
    rcases hlogs with h | h
    · exact hclean h
    · -- the object that is left refutes the claim
      refine ⟨fun hno => ?_, fun hn => absurd h.interrupted hn⟩
      obtain ⟨key, hw, hkey⟩ := h.orphan
      have hnew : ¬ NewRow w (Prog.run (env.failing fault)
          (upload env ownerId file context thumbnailFile sharedWith).run w).world := by
        rintro ⟨k, hk, hk'⟩
        rw [h.media, hk] at hk'
        exact absurd hk' (by simp)
      rw [hno ⟨e, he⟩ hnew key hw] at hkey
      exact absurd hkey (by simp)

/-- The database refuses the INSERT. -/
def insertDown : Cmd → Option Fault
  | .saveMedia _ _ => some ⟨"connection terminated", false⟩
  | _ => none

theorem upload_leaves_no_orphan_of_failed_insert : LeavesNoOrphan insertDown World.empty
    (faultyUpload exampleEnv insertDown (exampleId 7) threeBytes .AVATAR none none World.empty) := by
  refine (upload_leaves_no_orphan_iff exampleEnv insertDown (exampleId 7) threeBytes .AVATAR none
    none World.empty rfl rfl fun _ => rfl).mpr ?_
  rintro ⟨id, key, r, -, -, -, -, hfails | ⟨thumbnail, ht, -⟩⟩
  · exact hfails rfl
  · exact absurd ht (by simp)

/-- A text sent as the thumbnail. -/
def textThumbnail : File := ⟨"text/plain", 1, some [0], none⟩

/-- An upload with a refused thumbnail leaves its blob in the bucket. -/
theorem refused_thumbnail_leaves_orphan :
    ¬ ∀ (env : Env) (fault : Cmd → Option Fault) (ownerId : String) (file : File)
      (context : MediaContext) (thumbnailFile : Option File) (sharedWith : Option (List String))
      (w : World), fault .now = none → fault .randomUUID = none →
      (∀ key, fault (.deleteObject key) = none) →
      LeavesNoOrphan fault w
        (faultyUpload env fault ownerId file context thumbnailFile sharedWith w) := by
  intro hall
  have h := hall exampleEnv (fun _ => none) (exampleId 7) threeBytes .AVATAR (some textThumbnail)
    none World.empty rfl rfl fun _ => rfl
  have hthrown : (faultyUpload exampleEnv (fun _ => none) (exampleId 7) threeBytes .AVATAR
      (some textThumbnail) none World.empty).result.isOk = false := by decide +kernel
  have hrows : (faultyUpload exampleEnv (fun _ => none) (exampleId 7) threeBytes .AVATAR
      (some textThumbnail) none World.empty).world.media.rows.isEmpty = true := by decide +kernel
  have hleft : (putKeys (faultyUpload exampleEnv (fun _ => none) (exampleId 7) threeBytes .AVATAR
      (some textThumbnail) none World.empty).log).any (fun key =>
        ((faultyUpload exampleEnv (fun _ => none) (exampleId 7) threeBytes .AVATAR
          (some textThumbnail) none World.empty).world.bucket key).isSome) = true := by
    decide +kernel
  generalize faultyUpload exampleEnv (fun _ => none) (exampleId 7) threeBytes .AVATAR
    (some textThumbnail) none World.empty = d at h hthrown hrows hleft
  obtain ⟨key, hkey, hsome⟩ := List.any_eq_true.mp hleft
  have herror : ∃ e, d.result = .error e := by
    cases hr : d.result with
    | ok dto =>
      rw [hr] at hthrown
      exact absurd hthrown (by simp [Except.isOk, Except.toBool])
    | error e => exact ⟨e, rfl⟩
  have hnew : ¬ NewRow World.empty d.world := by
    rintro ⟨k, -, hk⟩
    obtain ⟨m, hm⟩ := Option.isSome_iff_exists.mp hk
    have hmem := (Table.get_some.mp hm).1
    rw [List.isEmpty_iff.mp hrows] at hmem
    exact absurd hmem List.not_mem_nil
  obtain ⟨object, r, hput⟩ := mem_putKeys.mp hkey
  rw [h herror hnew key ⟨object, r, hput, fun f hf => absurd hf (by simp)⟩] at hsome
  exact absurd hsome (by simp)

end WhisprMedia
