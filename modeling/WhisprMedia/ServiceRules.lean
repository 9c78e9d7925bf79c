import WhisprMedia.Footprints
import WhisprMedia.RelyGuarantee
import Mathlib.Algebra.Group.Prod

/-! The rules for a body of the service: one awaited command, a synchronous step, and a part
that is neutral because of the stores it addresses. -/
namespace WhisprMedia
open Awaiting

abbrev ServicePool := Pool Cmd Cmd.Reply World Call (Except Err Reply)
abbrev ServiceThread := Thread Cmd Cmd.Reply Call (Except Err Reply)

variable {G M α β : Type} [AddCommMonoid M] {env : Env} {D : Discipline (service env) G M}
  {g : G} {w : World} {m : M}

/-- An awaited command, given what it answers in a later world. -/
theorem keeps_await {c : Cmd} {Q : c.Value → G → World → M → Prop}
    {E : Err → G → World → M → Prop}
    (h : ∀ w' f r u, D.rely w m w' (D.value g + f) → D.inv w' (D.value g + f) →
      D.may w' (D.value g + f) g c → env.exec c w' = (r, u) →
      D.inv u (D.value (D.next g c r) + f) ∧
      D.rely w' (D.value g + f) u (D.value (D.next g c r) + f) ∧
      ∀ u' n, D.rely u (D.value (D.next g c r) + f) u' n → D.inv u' n →
        match r with
        | .ok v => Q v (D.next g c r) u' n
        | .error e => E (.error e) (D.next g c r) u' n) :
    D.Keeps (await c) g w m Q E := by
  refine Discipline.keeps_issue fun w' f hr hi hm => ?_
  cases he : env.exec c w' with
  | mk r u =>
    have he' : (service env).exec c w' = (r, u) := he
    obtain ⟨hinv, hrely, hpost⟩ := h w' f r u hr hi hm he
    rw [he']
    refine ⟨hinv, hrely, fun u' n hu hn => ?_⟩
    cases r with
    | ok v => exact hpost u' n hu hn
    | error e => exact hpost u' n hu hn

/-- The world in which a command was answered lies between the one where the thread came to it
and the one in which it goes on. -/
structure Answered (D : Discipline (service env) G M) (g : G) (c : Cmd) (r : c.Reply) (w : World)
    (m : M) (w' : World) (m' : M) : Prop where
  answered : ∃ w₀ u m₀, D.rely w m w₀ m₀ ∧ D.inv w₀ m₀ ∧ D.may w₀ m₀ g c ∧
    env.exec c w₀ = (r, u) ∧ D.inv u m₀ ∧ D.rely w₀ m₀ u m₀ ∧ D.rely u m₀ w' m'

theorem Answered.rely {c : Cmd} {r : c.Reply} {w' : World} {m' : M}
    (h : Answered D g c r w m w' m') : D.rely w m w' m' := by
  obtain ⟨w₀, u, m₀, h1, -, -, -, -, h2, h3⟩ := h.answered
  exact D.rely_trans h1 (D.rely_trans h2 h3)

/-- A neutral command answers as it does in some world between. -/
theorem keeps_await_neutral {c : Cmd} (hn : D.Neutral g c) :
    D.Keeps (await c) g w m (fun v g' w' m' => g' = g ∧ Answered D g c (.ok v) w m w' m')
      (fun _ g' w' m' => g' = g ∧ ∃ e, Answered D g c (.error e) w m w' m') := by
  refine keeps_await fun w' f r u hr hi hm he => ?_
  obtain ⟨hg, hi', hr'⟩ := hn w' f hi hm
  have he' : (service env).exec c w' = (r, u) := he
  rw [he'] at hg hi' hr'
  rw [show D.next g c r = g from hg]
  refine ⟨hi', hr', fun u' n hu _ => ?_⟩
  have ha : Answered D g c r w m u' n := ⟨w', u, _, hr, hi, hm, he, hi', hr', hu⟩
  cases r with
  | ok v => exact ⟨rfl, ha⟩
  | error e => exact ⟨rfl, e, ha⟩

/-- A neutral command that does not fail. -/
theorem keeps_await_ok {c : Cmd} {E : Err → G → World → M → Prop} (hn : D.Neutral g c)
    (hok : ∀ w, (env.exec c w).1.isOk = true) :
    D.Keeps (await c) g w m (fun _ g' w' m' => g' = g ∧ D.rely w m w' m') E := by
  refine Discipline.Keeps.mono (keeps_await_neutral hn) (fun v g' w' m' _ h => ⟨h.1, h.2.rely⟩)
    fun e g' w' m' _ h => ?_
  obtain ⟨-, msg, ha⟩ := h
  obtain ⟨w₀, u, m₀, -, -, -, he, -⟩ := ha.answered
  have h := hok w₀
  rw [he] at h
  exact Bool.noConfusion h

/-- A neutral command whose failure is swallowed. -/
theorem keeps_quietly {c : Cmd} {v : c.Value} {E : Err → G → World → M → Prop}
    (hn : D.Neutral g c) :
    D.Keeps (tryCatch (await c) fun _ => pure v) g w m
      (fun _ g' w' m' => g' = g ∧ D.rely w m w' m') E := by
  refine Discipline.Keeps.tryCatch ((keeps_await_neutral hn).mono
    (fun _ _ _ _ _ h => ⟨h.1, h.2.rely⟩) fun _ _ _ _ _ h => h) fun e g' w₁ m₁ hi₁ h => ?_
  obtain ⟨rfl, msg, ha⟩ := h.now hi₁
  exact Discipline.keeps_pure fun u n hr _ => ⟨rfl, D.rely_trans ha.rely hr⟩

theorem keeps_sync {x : Except Err α} {Q : α → G → World → M → Prop}
    {E : Err → G → World → M → Prop} (hQ : ∀ a, x = .ok a → D.Stays (Q a g) w m)
    (hE : ∀ e, x = .error e → D.Stays (E e g) w m) : D.Keeps (sync x) g w m Q E := by
  cases x with
  | ok a => exact ⟨hQ a rfl⟩
  | error e => exact ⟨hE e rfl⟩

/-- A synchronous step before the part that matters. -/
theorem keeps_sync_bind {x : Except Err α} {f : α → Svc β} {Q : β → G → World → M → Prop}
    {E : Err → G → World → M → Prop} (hE : ∀ e, x = .error e → D.Stays (E e g) w m)
    (hf : ∀ a, x = .ok a → D.Keeps (f a) g w m Q E) : D.Keeps (sync x >>= f) g w m Q E := by
  cases x with
  | ok a => exact hf a rfl
  | error e => exact ⟨hE e rfl⟩

/-- A part that only addresses stores whose commands are neutral, before the part that matters. -/
theorem keeps_after_touch {F : List Family} {x : Svc α} {f : α → Svc β}
    {Q : β → G → World → M → Prop} {E : Err → G → World → M → Prop} (hx : Touches F x)
    (hn : ∀ c, c.family ∈ F → D.Neutral g c) (hE : ∀ e, D.Stays (E e g) w m)
    (hf : ∀ a w' m', D.rely w m w' m' → D.inv w' m' → D.Keeps (f a) g w' m' Q E) :
    D.Keeps (x >>= f) g w m Q E :=
  Discipline.Keeps.after hx.issues hn hE hf

theorem keeps_of_touch {F : List Family} {x : Svc α} {Q : α → G → World → M → Prop}
    {E : Err → G → World → M → Prop} (hx : Touches F x)
    (hn : ∀ c, c.family ∈ F → D.Neutral g c) (hQ : ∀ a, D.Stays (Q a g) w m)
    (hE : ∀ e, D.Stays (E e g) w m) : D.Keeps x g w m Q E :=
  Discipline.keeps_neutral hx.issues hn hQ hE

/-- Where the semaphore is neutral, an upload is the part that holds it. -/
theorem upload_of_held {ownerId : String} {file : File} {context : MediaContext}
    {thumbnailFile : Option File} {sharedWith : Option (List String)}
    {Q : UploadMediaResponseDto → G → World → M → Prop} {E : G → World → M → Prop}
    (hsem : ∀ g c, c.family = .semaphore → D.Neutral g c) (hE : D.Stays (E g) w m)
    (hQE : ∀ a g w m, Q a g w m → E g w m)
    (h : ∀ w' m', D.rely w m w' m' → D.inv w' m' → D.Keeps
      (MediaService.uploadHeld env ownerId file context thumbnailFile sharedWith) g w' m' Q
      fun _ => E) :
    D.Keeps (MediaService.upload env ownerId file context thumbnailFile sharedWith) g w m Q
      fun _ => E := by
  have hsem' (g : G) : ∀ c : Cmd, c.family ∈ [Family.semaphore] → D.Neutral g c :=
    fun c hc => hsem g c (by simpa using hc)
  have hrelease := (MediaService.releaseSemaphore_touches ownerId).issues
  refine Discipline.Keeps.after (MediaService.acquireSemaphore_touches ownerId).issues (hsem' g)
    (fun _ => hE) fun _ w₁ m₁ hr₁ hi₁ => Discipline.Keeps.ensuring (h w₁ m₁ hr₁ hi₁) ?_ ?_
  · intro a g' w₂ m₂ _ hq
    exact Discipline.keeps_neutral hrelease (hsem' g') (fun _ => hq)
      fun _ u n hr hi => hQE a g' u n (hq u n hr hi)
  · intro e g' w₂ m₂ _ he
    exact Discipline.keeps_neutral hrelease (hsem' g') (fun _ => he) fun _ => he

/-! Uploads, in any discipline where only some of their commands matter -/

section Uploads
open MediaService
variable {ownerId : String} {file : File} {context : MediaContext} {thumbnailFile : Option File}
  {sharedWith : Option (List String)} {E : G → World → M → Prop}

/-- A row as `storeNew` builds it. -/
structure FreshMedia (env : Env) (ownerId : String) (file : File)
    (sharedWith : Option (List String)) (media : Media) : Prop where
  uuid : env.uuidIn media.id = some media.id
  owner : media.ownerId = ownerId
  active : media.isActive = true
  size : media.blobSize = file.size
  acl : media.sharedWith = initialSharedWith ownerId sharedWith
  paths : ∀ key, media.RefersTo key → PathOf media.id key

/-- Where the bucket is neutral, saving a row is its INSERT. -/
theorem saveMedia_of_insert {media : Media} {Q : Unit → G → World → M → Prop}
    (hbucket : ∀ g c, c.family = .bucket → D.Neutral g c)
    (h : D.Keeps (await (.saveMedia ownerId media)) g w m Q fun _ => E) :
    D.Keeps (saveMedia ownerId media) g w m Q fun _ => E := by
  refine Discipline.Keeps.tryCatch h fun dbErr g' w₁ m₁ _ hE => ?_
  -- the objects of the row are removed again, and its error goes on
  refine keeps_after_touch (deleteStored_touches _ _) (fun c hc => hbucket g' c (by simpa using hc))
    (fun _ => hE) fun _ w₂ m₂ hr₂ _ => ?_
  exact Discipline.keeps_throw (hE.later hr₂)

theorem storeThumbnail_keeps {id : String} (hbucket : ∀ c : Cmd, c.family = .bucket → D.Neutral g c)
    (hE : D.Stays (E g) w m) :
    D.Keeps (storeThumbnail ownerId id thumbnailFile) g w m
      (fun path g' w' m' => g' = g ∧ D.rely w m w' m' ∧ ∀ p, path = some p → PathOf id p)
      fun _ => E := by
  cases thumbnailFile with
  | none => exact Discipline.keeps_pure fun u n hr _ => ⟨rfl, hr, fun p hp => absurd hp (by simp)⟩
  | some thumbnail =>
    refine keeps_sync_bind (fun _ _ => hE) fun _ _ => ?_
    refine keeps_sync_bind (fun _ _ => hE) fun path hpath => ?_
    refine keeps_after_touch (F := [.bucket]) (touches_await (by simp [Cmd.family]))
      (fun c hc => hbucket c (by simpa using hc)) (fun _ => hE) fun _ w₁ m₁ hr₁ _ => ?_
    refine Discipline.keeps_pure fun u n hr _ => ⟨rfl, D.rely_trans hr₁ hr, fun p hp => ?_⟩
    obtain rfl := Option.some.inj hp
    exact ⟨_, _, hpath⟩

/-- Where the draw of an id and the bucket are neutral, storing a new upload is the save of its
row. -/
theorem storeNew_of_saveMedia {Q : Media → G → World → M → Prop}
    (hn : ∀ c : Cmd, c.family ∈ [Family.draws, .bucket, .outside] → D.Neutral g c)
    (hE : D.Stays (E g) w m)
    (h : ∀ media w' m', D.rely w m w' m' → FreshMedia env ownerId file sharedWith media →
      D.Keeps (saveMedia ownerId media) g w' m' (fun _ => Q media) fun _ => E) :
    D.Keeps (storeNew env ownerId file context thumbnailFile sharedWith) g w m Q fun _ => E := by
  have hone (x : Family) (hx : x ∈ [Family.draws, .bucket, .outside]) :
      ∀ c : Cmd, c.family ∈ [x] → D.Neutral g c := by
    intro c hc
    apply hn
    rw [List.mem_singleton.mp hc]
    exact hx
  refine Discipline.Keeps.bind ((keeps_await_neutral (hn .randomUUID (by simp [Cmd.family]))).mono
    (fun _ _ _ _ _ h => h) fun _ g' w₁ m₁ hi₁ h₁ => ?_) fun id g' w₁ m₁ hi₁ h₁ => ?_
  · obtain ⟨rfl, msg, ha⟩ := h₁
    exact hE w₁ m₁ ha.rely hi₁
  obtain ⟨rfl, ha⟩ := h₁.now hi₁
  have hid : env.uuidIn id = some id := by
    obtain ⟨w₀, u, m₀, -, -, -, he, -⟩ := ha.answered
    obtain rfl := Except.ok.inj (Prod.mk.inj he).1
    exact env.randomUUID_canonical w₀.drawn
  have hE₁ := hE.later ha.rely
  refine keeps_sync_bind (fun _ _ => hE₁) fun storagePath hpath => ?_
  refine keeps_after_touch (F := [.bucket]) (touches_await (by simp [Cmd.family]))
    (hone .bucket (by simp)) (fun _ => hE₁) fun _ w₂ m₂ hr₂ _ => ?_
  refine Discipline.Keeps.bind (storeThumbnail_keeps (fun c hc => hn c (by simp [hc]))
    (hE₁.later hr₂)) fun thumbnailPath g' w₃ m₃ hi₃ h₃ => ?_
  obtain ⟨rfl, hr₃, hthumb⟩ := h₃.now hi₃
  have hr₀₃ := D.rely_trans ha.rely (D.rely_trans hr₂ hr₃)
  refine keeps_after_touch (computeExpiresAt_touches env context) (hone .outside (by simp))
    (fun _ => hE.later hr₀₃) fun expiresAt w₄ m₄ hr₄ _ => ?_
  refine Discipline.Keeps.bind (h _ w₄ m₄ (D.rely_trans hr₀₃ hr₄) ⟨hid, rfl, rfl, rfl, rfl, ?_⟩)
    fun _ _ _ _ _ hq => Discipline.keeps_pure hq
  rintro key (rfl | hkey)
  · exact ⟨_, _, hpath⟩
  · exact hthumb key hkey

/-- Where the outside and the reads of the quota are neutral, an upload is what it does once its
file has passed the checks. -/
theorem uploadHeld_of_checked {Q : UploadMediaResponseDto → G → World → M → Prop}
    (hn : ∀ c : Cmd, c.family ∈ [Family.outside, .quotaCache, .quotaFill, .quotaLookup] →
      D.Neutral g c) (hE : D.Stays (E g) w m)
    (h : ∀ w' m', D.rely w m w' m' → D.inv w' m' → D.Keeps (do
      match ← findDuplicate ownerId (dedupKey ownerId context (env.sha256 (fileBuffer file))) with
      | some existing => do
        mergeSharedWith ownerId existing sharedWith
        buildUploadResponse env existing
      | none => do
        let media ← storeNew env ownerId file context thumbnailFile sharedWith
        await (.setDedup (dedupKey ownerId context (env.sha256 (fileBuffer file))) media.id
          DEDUP_CACHE_TTL_MS)
        QuotaService.recordUpload ownerId (.int file.size)
        buildUploadResponse env media) g w' m' Q fun _ => E) :
    D.Keeps (uploadHeld env ownerId file context thumbnailFile sharedWith) g w m Q fun _ => E := by
  have hout : ∀ c : Cmd, c.family ∈ [Family.outside] → D.Neutral g c :=
    fun c hc => hn c (by simp [List.mem_singleton.mp hc])
  refine keeps_after_touch (authorizeGroupIconUpload_touches env context ownerId) hout
    (fun _ => hE) fun _ w₁ m₁ hr₁ _ => ?_
  refine keeps_after_touch (QuotaService.enforceQuota_touches ownerId _)
    (fun c hc => hn c (List.mem_cons_of_mem _ hc)) (fun _ => hE.later hr₁) fun _ w₂ m₂ hr₂ _ => ?_
  have hr₁₂ := D.rely_trans hr₁ hr₂
  refine keeps_after_touch (validateFile_touches env file context) hout
    (fun _ => hE.later hr₁₂) fun _ w₃ m₃ hr₃ hi₃ => ?_
  exact h w₃ m₃ (D.rely_trans hr₁₂ hr₃) hi₃

end Uploads

theorem throwIf_eq_ok {b : Bool} {err : Err} {a : Unit} : throwIf b err = .ok a ↔ b = false := by
  cases b <;> simp [throwIf]

theorem enforceOwner_eq_ok {media : Media} {id requesterId : String} :
    MediaService.enforceOwner media id requesterId = .ok () ↔ media.ownerId = requesterId := by
  simp [MediaService.enforceOwner, throwIf_eq_ok]

theorem throwIf_error {b : Bool} {err e : Err} (h : throwIf b err = .error e) : e = err := by
  cases b
  · simp [throwIf] at h
  · exact (Except.error.inj h).symm

/-- A sequence of checks fails in its first part or in its second. -/
theorem bind_eq_error {x : Except Err α} {f : α → Except Err β} {e : Err}
    (h : (x >>= f) = .error e) : x = .error e ∨ ∃ a, x = .ok a ∧ f a = .error e := by
  cases x with
  | error e' => exact Or.inl (congrArg Except.error (Except.error.inj h))
  | ok a => exact Or.inr ⟨a, rfl, h⟩

theorem bind_eq_ok {x : Except Err α} {f : α → Except Err β} {b : β}
    (h : (x >>= f) = .ok b) : ∃ a, x = .ok a ∧ f a = .ok b := by
  cases x with
  | error e' => exact absurd h (by rintro ⟨⟩)
  | ok a => exact ⟨a, rfl, h⟩

/-! Logs of bodies -/

abbrev ServiceLog := List (Event Cmd Cmd.Reply)

theorem follows_sync {x : Except Err α} {log : ServiceLog} {a : α}
    (h : (sync x).run.Follows log (.pure (.ok a))) : x = .ok a :=
  (Prog.pure.inj (Prog.Follows.of_pure h).2).symm

/-- A command that returned was answered by its value. -/
theorem follows_await {c : Cmd} {log : ServiceLog} {v : c.Value}
    (h : (await c).run.Follows log (.pure (.ok v))) : log = [⟨c, .ok v⟩] := by
  obtain ⟨r, rfl, hr⟩ := ProgE.follows_of_issue h
  cases r with
  | ok u => rw [Except.ok.inj hr]
  | error e => exact absurd hr (by rintro ⟨⟩)

section Lookups
open MediaService
variable {id r : String} {media : Media} {l : ServiceLog}

/-- A lookup that returns has issued one command, which was answered by the row. -/
theorem findActive_follows (h : (findActive id r).run.Follows l (.pure (.ok media))) :
    l = [⟨.findMedia r id, .ok (some media)⟩] := by
  obtain ⟨found, l₁, l₂, rfl, h₁, h₂⟩ := ProgE.returned_of_bind h
  cases found with
  | none => exact absurd h₂.of_pure.2 (by rintro ⟨⟩)
  | some m =>
    obtain ⟨rfl, hm⟩ := Prog.Follows.of_pure h₂
    obtain rfl := Except.ok.inj (Prog.pure.inj hm)
    rw [List.append_nil]
    exact follows_await h₁

theorem findReadable_follows (h : (findReadable id r).run.Follows l (.pure (.ok media))) :
    l = [⟨.findMedia r id, .ok (some media)⟩] := by
  obtain ⟨m, l₁, l₂, rfl, h₁, h₂⟩ := ProgE.returned_of_bind h
  obtain ⟨_, l₃, l₄, rfl, h₃, h₄⟩ := ProgE.returned_of_bind h₂
  obtain ⟨rfl, hm⟩ := Prog.Follows.of_pure h₄
  obtain rfl := Except.ok.inj (Prog.pure.inj hm)
  obtain ⟨rfl, -⟩ := Prog.Follows.of_pure h₃
  rw [findActive_follows h₁, List.append_nil, List.append_nil]

end Lookups

/-! Lookups and answers, in any discipline where their commands are neutral -/

section Neutral
open MediaService
variable {id user : String}

theorem findActive_keeps (hn : D.Neutral g (.findMedia user id)) :
    D.Keeps (findActive id user) g w m
      (fun media g' w' m' => g' = g ∧
        Answered D g (.findMedia user id) (.ok (some media)) w m w' m')
      (fun _ g' w' m' => g' = g ∧ D.rely w m w' m') := by
  refine Discipline.Keeps.bind ((keeps_await_neutral hn).mono (fun _ _ _ _ _ h => h)
    fun e g' w' m' _ h => ?_) fun r g' w' m' hi h => ?_
  · obtain ⟨rfl, msg, ha⟩ := h
    exact ⟨rfl, ha.rely⟩
  · obtain ⟨rfl, ha⟩ := h.now hi
    cases r with
    | some media => exact Discipline.keeps_pure h
    | none => exact Discipline.keeps_throw fun u n hr _ => ⟨rfl, D.rely_trans ha.rely hr⟩

/-- The read access check after the lookup. -/
theorem findReadable_keeps (hn : D.Neutral g (.findMedia user id)) :
    D.Keeps (findReadable id user) g w m
      (fun media g' w' m' => g' = g ∧
        Answered D g (.findMedia user id) (.ok (some media)) w m w' m' ∧
        enforceReadAccess media.context media.ownerId media.sharedWith user = .ok ())
      (fun _ g' w' m' => g' = g ∧ D.rely w m w' m') := by
  refine Discipline.Keeps.bind (findActive_keeps hn) fun media g' w' m' hi h => ?_
  obtain ⟨rfl, -⟩ := h.now hi
  refine keeps_sync_bind (fun e _ u n hr hi' => ⟨rfl, ?_⟩) fun _ hacc => ?_
  · exact (h u n hr hi').2.rely
  · exact Discipline.keeps_pure fun u n hr hi' => ⟨rfl, (h u n hr hi').2, hacc⟩

/-- A duplicate is the row that a dedup entry points to. -/
theorem findDuplicate_keeps {key : String} (hd : D.Neutral g (.getDedup key))
    (hn : ∀ id, D.Neutral g (.findMedia user id)) :
    D.Keeps (findDuplicate user key) g w m
      (fun r g' w' m' => g' = g ∧ D.rely w m w' m' ∧ ∀ existing, r = some existing →
        ∃ id w₁ m₁, Answered D g (.getDedup key) (.ok (some id)) w m w₁ m₁ ∧
          Answered D g (.findMedia user id) (.ok (some existing)) w₁ m₁ w' m')
      (fun _ g' w' m' => g' = g ∧ D.rely w m w' m') := by
  refine Discipline.Keeps.bind ((keeps_await_neutral hd).mono (fun _ _ _ _ _ h => h)
    fun e g' w' m' _ h => ?_) fun r g' w₁ m₁ hi₁ h => ?_
  · obtain ⟨rfl, msg, ha⟩ := h
    exact ⟨rfl, ha.rely⟩
  · obtain ⟨rfl, ha⟩ := h.now hi₁
    split
    · next id hid =>
      obtain ⟨rfl, -⟩ := Option.filter_eq_some_iff.mp hid
      refine (keeps_await_neutral (hn id)).mono (fun r g' w' m' _ h' => ?_)
        fun e g' w' m' _ h' => ?_
      · obtain ⟨rfl, ha'⟩ := h'
        refine ⟨rfl, D.rely_trans ha.rely ha'.rely, ?_⟩
        rintro existing rfl
        exact ⟨id, w₁, m₁, ha, ha'⟩
      · obtain ⟨rfl, msg, ha'⟩ := h'
        exact ⟨rfl, D.rely_trans ha.rely ha'.rely⟩
    · refine Discipline.keeps_pure fun u n hr _ => ⟨rfl, D.rely_trans ha.rely hr, ?_⟩
      intro existing hex
      exact absurd hex (by simp)

theorem generatePresignedUrl_keeps {path : String} {expiresIn : Int}
    (hn : ∀ c : Cmd, c.family = .outside → D.Neutral g c) :
    D.Keeps (generatePresignedUrl path expiresIn) g w m
      (fun url g' w' m' => g' = g ∧ D.rely w m w' m' ∧ url = ⟨path, expiresIn⟩)
      (fun _ g' w' m' => g' = g ∧ D.rely w m w' m') := by
  refine (keeps_await_neutral (hn _ rfl)).mono (fun url g' w' m' _ h => ?_) fun e g' w' m' _ h => ?_
  · obtain ⟨rfl, ha⟩ := h
    obtain ⟨w₀, u, m₀, -, -, -, he, -⟩ := ha.answered
    exact ⟨rfl, ha.rely, (Except.ok.inj (Prod.mk.inj he).1).symm⟩
  · obtain ⟨rfl, msg, ha⟩ := h
    exact ⟨rfl, ha.rely⟩

theorem presignTruthy_keeps {path : Option String} {expiresIn : Int}
    (hn : ∀ c : Cmd, c.family = .outside → D.Neutral g c) :
    D.Keeps (presignTruthy path expiresIn) g w m
      (fun url g' w' m' => g' = g ∧ D.rely w m w' m' ∧
        ∀ u, url = some u → path = some u.key)
      (fun _ g' w' m' => g' = g ∧ D.rely w m w' m') := by
  unfold presignTruthy
  split
  · next p hp =>
    obtain ⟨rfl, -⟩ := Option.filter_eq_some_iff.mp hp
    refine Discipline.Keeps.bind (generatePresignedUrl_keeps hn) fun url g' w' m' hi h => ?_
    obtain ⟨rfl, -, rfl⟩ := h.now hi
    refine Discipline.keeps_pure fun u n hr hi' => ⟨rfl, (h u n hr hi').2.1, ?_⟩
    intro u hu
    rw [← Option.some.inj hu]
  · refine Discipline.keeps_pure fun u n hr _ => ⟨rfl, hr, ?_⟩
    intro u hu
    exact absurd hu (by simp)

/-- The response names the row and opens its objects. -/
theorem buildUploadResponse_keeps {media : Media}
    (hn : ∀ c : Cmd, c.family = .outside → D.Neutral g c) :
    D.Keeps (buildUploadResponse env media) g w m
      (fun dto g' w' m' => g' = g ∧ D.rely w m w' m' ∧ dto.media_id = media.id ∧
        (∀ u, dto.url = some u → media.storagePath = u.key) ∧
        ∀ u, dto.thumbnail_url = some u → media.thumbnailPath = some u.key)
      (fun _ g' w' m' => g' = g ∧ D.rely w m w' m') := by
  refine Discipline.Keeps.bind (presignTruthy_keeps hn) fun url g' w₁ m₁ hi₁ h₁ => ?_
  obtain ⟨rfl, hr₁, hurl⟩ := h₁.now hi₁
  refine Discipline.Keeps.bind ((presignTruthy_keeps hn).mono (fun _ _ _ _ _ h => h)
    fun e g' w' m' _ h => ⟨h.1, D.rely_trans hr₁ h.2⟩) fun turl g' w₂ m₂ hi₂ h₂ => ?_
  obtain ⟨rfl, hr₂, hturl⟩ := h₂.now hi₂
  have hr₁₂ := D.rely_trans hr₁ hr₂
  refine Discipline.Keeps.bind (keeps_await_ok (hn _ rfl) fun _ => rfl)
    fun now g' w₃ m₃ hi₃ h₃ => ?_
  obtain ⟨rfl, -⟩ := h₃.now hi₃
  refine Discipline.keeps_pure fun u n hr hi => ?_
  have hr₃ := (h₃ u n hr hi).2
  exact ⟨rfl, D.rely_trans hr₁₂ hr₃, rfl, fun v hv => Option.some.inj (hurl v hv), hturl⟩

end Neutral

end WhisprMedia
