import WhisprMedia.LifecycleRules
import WhisprMedia.StoredMedia
import Mathlib.Algebra.Order.Group.Multiset

/-! Active rows refer to objects that exist. An upload holds the id it has drawn until its row is
inserted, and what it stores under this id in the meantime is touched by nobody else; a delete
first takes the row out of the active ones. -/
namespace WhisprMedia
open Awaiting Keyed MediaService StorageService

/-! The ids that uploads hold -/

inductive Stage where
  | idle
  /-- The id is drawn, and the row is not inserted yet. -/
  | staged (id : String)
  /-- The insert has failed, and the objects are being removed. -/
  | discarding (id : String)
  deriving DecidableEq

/-- The DECR of `releaseSemaphore` ends an upload, whatever has happened before. -/
def Stage.next (g : Stage) (c : Cmd) (r : c.Reply) : Stage :=
  match c, r with
  | .randomUUID, .ok id => .staged id
  | .saveMedia _ _, .ok _ => .idle
  | .saveMedia _ media, .error _ => .discarding media.id
  | .decr _, _ => .idle
  | _, _ => g

/-- The ids of staged and of discarded objects. -/
def Stage.value : Stage → Multiset String × Multiset String
  | .idle => 0
  | .staged id => ({id}, 0)
  | .discarding id => (0, {id})

def stages : Account Cmd Cmd.Reply Call Stage (Multiset String × Multiset String) where
  start _ := .idle
  next := Stage.next
  value := Stage.value

/-- An active row refers to the key, or an upload that has not inserted its row has built it. -/
def InUse (p : ServicePool) (key : String) : Prop :=
  (∃ m ∈ p.world.media.rows, m.isActive = true ∧ m.RefersTo key) ∨
    ∃ t ∈ p.threads, ∃ id, stages.of t = .staged id ∧ PathOf id key

/-! What the uploads keep -/

/-- The id has been drawn. -/
def Drawn (env : Env) (w : World) (id : String) : Prop := ∃ n < w.drawn, id = env.randomUUID n

/-- Held ids are drawn, distinct and no row's; the keys of active rows hold objects. -/
structure LiveInv (env : Env) (w : World)
    (m : Multiset String × Multiset String) : Prop extends RowsPlaced env w where
  held : ∀ id ∈ m.1 + m.2, Drawn env w id
  unsaved : ∀ id ∈ m.1 + m.2, w.media.get id = none
  apart : (m.1 + m.2).Nodup
  live : ∀ k row, w.media.get k = some row → row.isActive = true → ∀ path, row.RefersTo path →
    (w.bucket path).isSome = true

/-- Ids that are staged later and were drawn before were staged before, with their objects. -/
structure LiveLater (env : Env) (w : World)
    (m : Multiset String × Multiset String) (w' : World)
    (m' : Multiset String × Multiset String) : Prop where
  media : MediaLater w w'
  drawn : w.drawn ≤ w'.drawn
  staged : ∀ id, Drawn env w id → id ∈ m'.1 → id ∈ m.1 ∧ ∀ key, PathOf id key →
    (w.bucket key).isSome = true → (w'.bucket key).isSome = true

section Laws
variable {env : Env} {w w' w'' : World}
  {m m' m'' : Multiset String × Multiset String}

theorem Drawn.later {id : String} (h : Drawn env w id) (hl : w.drawn ≤ w'.drawn) :
    Drawn env w' id := by
  obtain ⟨n, hn, he⟩ := h
  exact ⟨n, by omega, he⟩

theorem LiveLater.refl : LiveLater env w m w m :=
  ⟨MediaLater.refl w, Nat.le_refl _, fun _ _ hid => ⟨hid, fun _ _ h => h⟩⟩

theorem LiveLater.trans (h : LiveLater env w m w' m') (h' : LiveLater env w' m' w'' m'') :
    LiveLater env w m w'' m'' := by
  refine ⟨h.media.trans h'.media, h.drawn.trans h'.drawn, fun id hd hid => ?_⟩
  obtain ⟨hid', hkeep'⟩ := h'.staged id (hd.later h.drawn) hid
  obtain ⟨hid, hkeep⟩ := h.staged id hd hid'
  exact ⟨hid, fun key hk hs => hkeep' key hk (hkeep key hk hs)⟩

/-- Ids that are no longer held. -/
theorem LiveInv.drop {f : Multiset String × Multiset String} (h : LiveInv env w (m + f)) :
    LiveInv env w f := by
  have hle : f.1 + f.2 ≤ (m + f).1 + (m + f).2 := by
    show f.1 + f.2 ≤ (m.1 + f.1) + (m.2 + f.2)
    exact add_le_add (Multiset.le_add_left _ _) (Multiset.le_add_left _ _)
  exact ⟨h.toRowsPlaced, fun id hid => h.held id (Multiset.mem_of_le hle hid),
    fun id hid => h.unsaved id (Multiset.mem_of_le hle hid), Multiset.nodup_of_le hle h.apart, h.live⟩

theorem LiveLater.drop {f : Multiset String × Multiset String}
    (h : LiveLater env w (m + f) w' (m + f)) : LiveLater env w (m + f) w' f :=
  ⟨h.media, h.drawn, fun id hd hid => h.staged id hd (Multiset.mem_add.mpr (Or.inr hid))⟩

end Laws

def liveDiscipline (env : Env) :
    Discipline (service env) Stage (Multiset String × Multiset String) where
  toAccount := stages
  inv := LiveInv env
  rely := LiveLater env
  may w _ _ c := c = .randomUUID → env.DrawsApart (w.drawn + 1)
  rely_refl _ _ := LiveLater.refl
  rely_trans := LiveLater.trans

/-! Commands -/

section Commands
variable {env : Env} {w : World} {m : Multiset String × Multiset String}
  {g : Stage} {c : Cmd} {key : String}

theorem bucket_isSome_exec (hc : ∀ key, c ≠ .deleteObject key)
    (h : (w.bucket key).isSome = true) : ((env.exec c w).2.bucket key).isSome = true := by
  by_cases hf : c.family = .bucket
  · cases c <;> simp only [Cmd.family, reduceCtorEq] at hf
    case putObject key' object =>
      by_cases hk : key = key'
      · simp [Env.exec, hk]
      · simpa [Env.exec, hk] using h
    case deleteObject key' => exact absurd rfl (hc key')
    case getObject key' =>
      simp only [Env.exec]
      split <;> exact h
  · rwa [exec_bucket hf]

/-- A command that inserts no row keeps the rows in their places. -/
theorem rowsPlaced_exec (h : RowsPlaced env w) (hc : c.family ≠ .mediaInsert) :
    RowsPlaced env (env.exec c w).2 := by
  refine h.of_back (rowsCanonical_exec h.canonical) drawn_le_exec fun k m' hm' => ?_
  rcases media_before_exec hm' with ⟨m, hm, hb⟩ | ⟨user, media, rfl, -⟩
  · refine ⟨m, hm, hb.id_eq, fun path hp => ?_⟩
    unfold Media.RefersTo at hp ⊢
    rwa [hb.storagePath_eq, hb.thumbnailPath_eq] at hp
  · exact absurd rfl hc

/-- A command that neither inserts a row nor removes an object. -/
theorem live_exec (hinv : LiveInv env w m) (hi : c.family ≠ .mediaInsert)
    (hd : ∀ key, c ≠ .deleteObject key) :
    LiveInv env (env.exec c w).2 m ∧ LiveLater env w m (env.exec c w).2 m := by
  have hback {k : String} {m' : Media} (hm' : (env.exec c w).2.media.get k = some m') :
      ∃ m, w.media.get k = some m ∧ m.Becomes m' := by
    rcases media_before_exec hm' with hb | ⟨user, media, rfl, -⟩
    · exact hb
    · exact absurd rfl hi
  refine ⟨⟨rowsPlaced_exec hinv.toRowsPlaced hi, fun id hid => (hinv.held id hid).later drawn_le_exec,
    fun id hid => ?_, hinv.apart, fun k row hrow hact path hp => ?_⟩,
    mediaLater_exec, drawn_le_exec, fun id _ hid => ⟨hid, fun key _ => bucket_isSome_exec hd⟩⟩
  · cases hget : (env.exec c w).2.media.get id with
    | none => rfl
    | some m' =>
      obtain ⟨m, hm, -⟩ := hback hget
      exact absurd (hm.symm.trans (hinv.unsaved id hid)) (by simp)
  · obtain ⟨row₀, hrow₀, hb⟩ := hback hrow
    have hp₀ : row₀.RefersTo path := by
      unfold Media.RefersTo at hp ⊢
      rwa [hb.storagePath_eq, hb.thumbnailPath_eq] at hp
    exact bucket_isSome_exec hd (hinv.live k row₀ hrow₀ (hb.active hact) path hp₀)

/-- The families whose commands touch neither held ids nor objects. -/
def Family.leavesObjects : Family → Bool
  | .semaphore | .draws | .mediaInsert | .bucket => false
  | _ => true

theorem live_neutral (hi : c.family ≠ .mediaInsert) (hd : ∀ key, c ≠ .deleteObject key)
    (hdraw : c.family ≠ .draws) (hs : c.family ≠ .semaphore ∨ g = .idle) :
    (liveDiscipline env).Neutral g c := by
  intro w f hinv _
  obtain ⟨hinv', hlater⟩ := live_exec hinv hi hd
  refine ⟨?_, hinv', hlater⟩
  show Stage.next g c _ = g
  rcases hs with hs | rfl
  · cases c <;> first
      | rfl
      | exact absurd rfl hi
      | exact absurd rfl hdraw
      | exact absurd rfl hs
  · cases c <;> first
      | rfl
      | exact absurd rfl hi
      | exact absurd rfl hdraw

theorem live_neutrals {F : List Family} (hF : ∀ f ∈ F, f.leavesObjects = true) :
    ∀ c : Cmd, c.family ∈ F → (liveDiscipline env).Neutral g c := by
  intro c hc
  have hne (f : Family) (hf : f.leavesObjects = false) : c.family ≠ f := by
    intro h
    exact absurd ((hF _ hc).symm.trans (h ▸ hf)) (by simp)
  refine live_neutral (hne _ rfl) (fun key h => ?_) (hne _ rfl) (Or.inl (hne _ rfl))
  subst h
  exact hne .bucket rfl rfl

theorem semaphore_neutral (hc : c.family ∈ [Family.semaphore]) :
    (liveDiscipline env).Neutral .idle c := by
  have hf : c.family = .semaphore := by simpa using hc
  refine live_neutral (by simp [hf]) (fun key h => ?_) (by simp [hf]) (Or.inr rfl)
  subst h
  exact absurd hf (by simp [Cmd.family])

/-- The object of an id that is nobody's to keep: no active row refers to it, and no upload has
staged it. -/
theorem live_remove (hinv : LiveInv env w m) (hfree : ∀ id, PathOf id key → id ∉ m.1 ∧
      ∀ row, w.media.get id = some row → row.isActive = false) :
    LiveInv env { w with bucket := Function.update w.bucket key none } m ∧
      LiveLater env w m { w with bucket := Function.update w.bucket key none } m := by
  refine ⟨⟨hinv.toRowsPlaced.of_back hinv.canonical (Nat.le_refl _)
      fun k m' hm' => ⟨m', hm', rfl, fun _ hp => hp⟩, hinv.held, hinv.unsaved, hinv.apart,
    fun k row hrow hact path hp => ?_⟩, MediaLater.refl w, Nat.le_refl _,
    fun id _ hid => ⟨hid, fun path hpath hs => ?_⟩⟩
  · have hid := hinv.paths k row hrow path hp
    have hne : path ≠ key := by
      rintro rfl
      have hrow' : w.media.get row.id = some row := media_id hrow ▸ hrow
      exact absurd (((hfree _ hid).2 row hrow').symm.trans hact) (by simp)
    simpa [hne] using hinv.live k row hrow hact path hp
  · have hne : path ≠ key := by
      rintro rfl
      exact (hfree id hpath).1 hid
    simpa [hne] using hs

theorem remove_neutral (hfree : ∀ w f, LiveInv env w (g.value + f) → ∀ id, PathOf id key →
      id ∉ (g.value + f).1 ∧ ∀ row, w.media.get id = some row → row.isActive = false) :
    (liveDiscipline env).Neutral g (.deleteObject key) := by
  intro w f hinv _
  obtain ⟨hinv', hlater⟩ := live_remove hinv (hfree w f hinv)
  exact ⟨rfl, hinv', hlater⟩

end Commands

/-! Uploads -/

section Uploads
variable {env : Env} {w : World} {m : Multiset String × Multiset String}
  {g : Stage} {id key ownerId : String}

/-- Nothing is said about the world and the account. -/
abbrev AnyStage {α : Type} : α → Stage → World → Multiset String × Multiset String → Prop :=
  fun _ _ _ _ => True

/-- What an upload knows of an object it has stored for its staged id. -/
structure StagedObject (env : Env) (id key : String) (w : World)
    (m : Multiset String × Multiset String) : Prop where
  drawn : Drawn env w id
  path : PathOf id key
  stored : id ∈ m.1 → (w.bucket key).isSome = true

theorem StagedObject.later {w' : World} {m' : Multiset String × Multiset String}
    (h : StagedObject env id key w m) (hr : LiveLater env w m w' m') :
    StagedObject env id key w' m' := by
  refine ⟨h.drawn.later hr.drawn, h.path, fun hid => ?_⟩
  obtain ⟨hid₀, hkeep⟩ := hr.staged id h.drawn hid
  exact hkeep key h.path (h.stored hid₀)

/-- A new id is nobody's, and the upload that has drawn it stages it. -/
theorem keeps_draw {E : Err → Stage → World → Multiset String × Multiset String → Prop} :
    (liveDiscipline env).Keeps (await .randomUUID) .idle w m
      (fun id g' w' _ => g' = .staged id ∧ Drawn env w' id) E := by
  refine keeps_await fun w' f r u hr hinv hmay he => ?_
  obtain ⟨rfl, rfl⟩ := Prod.mk.inj he
  have hinv : LiveInv env w' f := LiveInv.drop (m := 0) hinv
  have hapart : env.DrawsApart (w'.drawn + 1) := hmay rfl
  have hnew : ¬ Drawn env w' (env.randomUUID w'.drawn) := by
    rintro ⟨n, hn, hid⟩
    have hsame := hapart w'.drawn n (by omega) (by omega) hid
    omega
  have hlater {i : String} (h : Drawn env w' i) :
      Drawn env { w' with drawn := w'.drawn + 1 } i := h.later (Nat.le_succ _)
  have hsplit {i : String} (hi : i ∈ (({env.randomUUID w'.drawn}, 0) + f).1 +
      (({env.randomUUID w'.drawn}, (0 : Multiset String)) + f).2) :
      i = env.randomUUID w'.drawn ∨ i ∈ f.1 + f.2 := by
    simpa [or_assoc] using hi
  refine ⟨⟨hinv.toRowsPlaced.of_back hinv.canonical (Nat.le_succ _)
      fun k m' hm' => ⟨m', hm', rfl, fun _ hp => hp⟩, fun i hi => ?_, fun i hi => ?_, ?_, hinv.live⟩,
    ⟨MediaLater.refl w', Nat.le_succ _, fun i hd hi => ?_⟩, fun u' n hu _ => ⟨rfl, ?_⟩⟩
  · rcases hsplit hi with rfl | hi
    · exact ⟨w'.drawn, Nat.lt_succ_self _, rfl⟩
    · exact hlater (hinv.held i hi)
  · rcases hsplit hi with rfl | hi
    · -- a row with this id would have been drawn before
      by_contra hrow
      obtain ⟨row, hrow⟩ := Option.ne_none_iff_exists'.mp hrow
      obtain ⟨n, hn, hid⟩ := hinv.drawn _ row hrow
      exact hnew ⟨n, hn, (media_id hrow).symm.trans hid⟩
    · exact hinv.unsaved i hi
  · show (({env.randomUUID w'.drawn} + f.1) + (0 + f.2)).Nodup
    rw [zero_add, add_assoc, Multiset.singleton_add, Multiset.nodup_cons]
    exact ⟨fun hi => hnew (hinv.held _ hi), hinv.apart⟩
  · have hi : i ∈ {env.randomUUID w'.drawn} + f.1 := hi
    rcases Multiset.mem_add.mp hi with hi | hi
    · exact absurd (Multiset.mem_singleton.mp hi ▸ hd) hnew
    · exact ⟨Multiset.mem_add.mpr (Or.inr hi), fun _ _ hs => hs⟩
  · exact Drawn.later ⟨w'.drawn, Nat.lt_succ_self _, rfl⟩ hu.drawn

/-- A PUT under a key of the staged id. -/
theorem keeps_put {E : Err → Stage → World → Multiset String × Multiset String → Prop}
    {object : StoredObject} (hd : Drawn env w id) (hpath : PathOf id key) :
    (liveDiscipline env).Keeps (await (.putObject key object)) (.staged id) w m
      (fun _ g' w' m' => g' = .staged id ∧ StagedObject env id key w' m') E := by
  refine keeps_await fun w' f r u hr hinv _ he => ?_
  obtain ⟨hinv', hlater⟩ := live_exec (c := .putObject key object) hinv (by simp [Cmd.family])
    (by simp)
  rw [he] at hinv' hlater
  obtain ⟨rfl, rfl⟩ := Prod.mk.inj he
  refine ⟨hinv', hlater, fun u' n hu _ => ⟨rfl, StagedObject.later ⟨?_, hpath, fun _ => ?_⟩ hu⟩⟩
  · exact (hd.later hr.drawn).later hlater.drawn
  · simp

/-- The staged objects become those of the inserted row. -/
theorem LiveInv.insert {row : Media} {f : Multiset String × Multiset String}
    (h : LiveInv env w (({row.id}, 0) + f))
    (hcanon : RowsCanonical env { w with media := w.media.insert row })
    (hobj : ∀ path, row.RefersTo path → StagedObject env row.id path w (({row.id}, 0) + f)) :
    LiveInv env { w with media := w.media.insert row } f := by
  have hmem : row.id ∈ (({row.id}, 0) + f).1 :=
    Multiset.mem_add.mpr (Or.inl (Multiset.mem_singleton_self row.id))
  have hnone : w.media.get row.id = none := h.unsaved _ (Multiset.mem_add.mpr (Or.inl hmem))
  have hfree : LiveInv env w f := h.drop
  have hnotin : row.id ∉ f.1 + f.2 := by
    have hnodup : (({row.id} + f.1) + (0 + f.2)).Nodup := h.apart
    rw [zero_add, add_assoc, Multiset.singleton_add, Multiset.nodup_cons] at hnodup
    exact hnodup.1
  refine ⟨⟨hcanon, fun k row' hk => ?_, fun k row' hk => ?_⟩, hfree.held, fun i hi => ?_,
    hfree.apart, fun k row' hk hact path hp => ?_⟩
  · rw [get_insertMedia hnone] at hk
    split at hk
    · obtain rfl := Option.some.inj hk
      exact (hobj _ (Or.inl rfl)).drawn
    · exact h.drawn k row' hk
  · rw [get_insertMedia hnone] at hk
    split at hk
    · obtain rfl := Option.some.inj hk
      exact fun path hp => (hobj path hp).path
    · exact h.paths k row' hk
  · rw [get_insertMedia hnone, if_neg fun he : i = row.id => hnotin (he ▸ hi)]
    exact hfree.unsaved i hi
  · rw [get_insertMedia hnone] at hk
    split at hk
    · obtain rfl := Option.some.inj hk
      exact (hobj path hp).stored hmem
    · exact h.live k row' hk hact path hp

/-- After a failed INSERT the id is still held, to be discarded. -/
theorem LiveInv.unstaged {f : Multiset String × Multiset String}
    (h : LiveInv env w (({id}, 0) + f)) : LiveInv env w ((0, {id}) + f) := by
  have hsum : ((0, {id}) + f).1 + ((0, {id}) + f).2 = (({id}, 0) + f).1 + (({id}, 0) + f).2 := by
    show (0 + f.1) + ({id} + f.2) = ({id} + f.1) + (0 + f.2)
    abel
  exact ⟨h.toRowsPlaced, fun i hi => h.held i (hsum ▸ hi), fun i hi => h.unsaved i (hsum ▸ hi),
    hsum ▸ h.apart, h.live⟩

/-- The INSERT turns the staged objects into those of the row. -/
theorem keeps_insert {user : String} {media : Media} (hid : media.id = id)
    (hobj : ∀ path, media.RefersTo path → StagedObject env id path w m) :
    (liveDiscipline env).Keeps (await (.saveMedia user media)) (.staged id) w m
      (fun _ g' _ _ => g' = .idle) (fun _ g' _ _ => g' = .discarding id) := by
  refine keeps_await fun w' f r u hr hinv _ he => ?_
  have hinv : LiveInv env w' (({id}, 0) + f) := hinv
  have hobj' {path : String} (hp : media.RefersTo path) :
      StagedObject env id path w' (({id}, 0) + f) := (hobj path hp).later hr
  rcases exec_saveMedia he with ⟨row, rfl, hrow, -, hnone, rfl⟩ | ⟨e, rfl, rfl⟩
  · obtain ⟨hrowId, -, -, hrowEq⟩ := mediaIn_eq hrow
    have hrowid : row.id = id := by
      obtain ⟨n, -, hdrawn⟩ := (hobj' (Or.inl rfl)).drawn
      rw [hid, hdrawn, env.randomUUID_canonical] at hrowId
      rw [hdrawn]
      exact (Option.some.inj hrowId).symm
    subst hrowid
    have hrefers {path : String} (hp : row.RefersTo path) : media.RefersTo path := by
      rw [hrowEq] at hp
      exact hp
    have hcanon : RowsCanonical env { w' with media := w'.media.insert row } := by
      have h := rowsCanonical_exec (c := .saveMedia user media) hinv.canonical
      rwa [he] at h
    have hnext := hinv.insert hcanon fun path hp => hobj' (hrefers hp)
    have hzero : (liveDiscipline env).value .idle + f = f := zero_add f
    show LiveInv env _ ((liveDiscipline env).value .idle + f) ∧
      LiveLater env _ _ _ ((liveDiscipline env).value .idle + f) ∧ _
    rw [hzero]
    refine ⟨hnext, ⟨mediaLater_insert hnone, Nat.le_refl _, fun i _ hi => ?_⟩, fun _ _ _ _ => rfl⟩
    exact ⟨Multiset.mem_add.mpr (Or.inr hi), fun _ _ hs => hs⟩
  · -- the insert has failed: the id is no longer staged
    have hnext : (liveDiscipline env).next (.staged id) (.saveMedia user media) (.error e) =
        .discarding id := congrArg Stage.discarding hid
    rw [hnext]
    refine ⟨hinv.unstaged, ⟨MediaLater.refl _, Nat.le_refl _, fun i _ hi => ?_⟩, fun _ _ _ _ => rfl⟩
    have hi : i ∈ 0 + f.1 := hi
    rw [zero_add] at hi
    exact ⟨Multiset.mem_add.mpr (Or.inr hi), fun _ _ hs => hs⟩

/-- The objects of a failed insert are nobody's. -/
theorem discard_neutral (hpath : PathOf id key) :
    (liveDiscipline env).Neutral (.discarding id) (.deleteObject key) := by
  refine remove_neutral fun w f hinv i hi => ?_
  obtain rfl := hi.id_eq hpath
  have hmem : i ∈ ((0, {i}) + f).2 := Multiset.mem_add.mpr (Or.inl (Multiset.mem_singleton_self i))
  refine ⟨fun hstaged => ?_, fun row hrow => ?_⟩
  · have hdisjoint := (Multiset.nodup_add.mp hinv.apart).2.2
    exact Multiset.disjoint_left.mp hdisjoint hstaged hmem
  · have hnone := hinv.unsaved i (Multiset.mem_add.mpr (Or.inr hmem))
    exact absurd (hrow.symm.trans hnone) (by simp)

theorem deleteStored_issues {storagePath : String} {thumbnailPath : Option String}
    (hpath : PathOf id storagePath) (hthumb : ∀ p, thumbnailPath = some p → PathOf id p) :
    ProgE.Issues (fun c => ∃ key, c = .deleteObject key ∧ PathOf id key)
      (deleteStored storagePath thumbnailPath) := by
  have hdelete {p : String} (hp : PathOf id p) :
      ProgE.Issues (fun c => ∃ key, c = .deleteObject key ∧ PathOf id key) (deleteQuietly p) :=
    ProgE.Issues.tryCatch ⟨⟨p, rfl, hp⟩, fun _ => trivial⟩ fun _ => ProgE.issues_pure ()
  refine ProgE.Issues.bind (hdelete hpath) fun _ => ?_
  split
  · next p hp => exact hdelete (hthumb p (Option.filter_eq_some_iff.mp hp).1)
  · exact ProgE.issues_pure ()

theorem saveMedia_live {media : Media} (hid : media.id = id)
    (hobj : ∀ path, media.RefersTo path → StagedObject env id path w m) :
    (liveDiscipline env).Keeps (saveMedia ownerId media) (.staged id) w m
      (fun _ g' _ _ => g' = .idle) AnyStage := by
  refine Discipline.Keeps.tryCatch (keeps_insert hid hobj) fun e g' w' m' hi h => ?_
  obtain rfl := h.now hi
  have hissues := @deleteStored_issues id media.storagePath media.thumbnailPath
    (hobj _ (Or.inl rfl)).path fun p hp => (hobj p (Or.inr hp)).path
  refine Discipline.Keeps.after hissues (fun c hc => ?_) (fun _ _ _ _ _ => trivial)
    fun _ _ _ _ _ => Discipline.keeps_throw fun _ _ _ _ => trivial
  obtain ⟨path, rfl, hpath⟩ := hc
  exact discard_neutral hpath

theorem storeThumbnail_live (hd : Drawn env w id) (thumbnailFile : Option File) :
    (liveDiscipline env).Keeps (storeThumbnail ownerId id thumbnailFile) (.staged id) w m
      (fun thumb g' w' m' => g' = .staged id ∧
        ∀ path, thumb = some path → StagedObject env id path w' m') AnyStage := by
  cases thumbnailFile with
  | none => exact Discipline.keeps_pure fun _ _ _ _ => ⟨rfl, fun _ h => absurd h (by simp)⟩
  | some file =>
    refine keeps_sync_bind (fun _ _ _ _ _ _ => trivial) fun _ _ => ?_
    refine keeps_sync_bind (fun _ _ _ _ _ _ => trivial) fun path hpath => ?_
    refine Discipline.Keeps.bind (keeps_put hd ⟨_, _, hpath⟩) fun _ g' w' m' hi h => ?_
    obtain ⟨rfl, -⟩ := h.now hi
    refine Discipline.keeps_pure fun u n hr hi' => ⟨rfl, fun p hp => ?_⟩
    obtain rfl := Option.some.inj hp
    exact (h u n hr hi').2

theorem storeNew_live (file : File) (context : MediaContext) (thumbnailFile : Option File)
    (sharedWith : Option (List String)) :
    (liveDiscipline env).Keeps (storeNew env ownerId file context thumbnailFile sharedWith)
      .idle w m (fun _ g' _ _ => g' = .idle) AnyStage := by
  refine Discipline.Keeps.bind keeps_draw fun id g₁ w₁ m₁ hi₁ h₁ => ?_
  obtain ⟨rfl, hd₁⟩ := h₁.now hi₁
  refine keeps_sync_bind (fun _ _ _ _ _ _ => trivial) fun storagePath hpath => ?_
  refine Discipline.Keeps.bind (keeps_put hd₁ ⟨_, _, hpath⟩) fun _ g₂ w₂ m₂ hi₂ h₂ => ?_
  obtain ⟨rfl, hobj₂⟩ := h₂.now hi₂
  refine Discipline.Keeps.seq (storeThumbnail_live hobj₂.drawn thumbnailFile)
    fun thumbnailPath g₃ w₃ m₃ hr₃ hi₃ h₃ => ?_
  obtain ⟨rfl, hthumb₃⟩ := h₃.now hi₃
  refine keeps_after_touch (computeExpiresAt_touches env context) (live_neutrals (by decide))
    (fun _ _ _ _ _ => trivial) fun expiresAt w₄ m₄ hr₄ hi₄ => ?_
  -- both objects are still there when the row is inserted
  refine Discipline.Keeps.bind (saveMedia_live rfl fun path hp => ?_)
    fun _ g₅ w₅ m₅ hi₅ h₅ => Discipline.keeps_pure h₅
  rcases hp with rfl | hp
  · exact (hobj₂.later hr₃).later hr₄
  · exact (hthumb₃ path hp).later hr₄

theorem uploadHeld_live (file : File) (context : MediaContext) (thumbnailFile : Option File)
    (sharedWith : Option (List String)) :
    (liveDiscipline env).Keeps
      (uploadHeld env ownerId file context thumbnailFile sharedWith) .idle w m AnyStage AnyStage := by
  have hE {w m} : ∀ e : Err, (liveDiscipline env).Stays (AnyStage e .idle) w m :=
    fun _ _ _ _ _ => trivial
  refine uploadHeld_of_checked (live_neutrals (by decide)) (fun _ _ _ _ => trivial)
    fun w₃ m₃ _ _ => ?_
  refine keeps_after_touch (findDuplicate_touches ownerId _) (live_neutrals (by decide)) hE
    fun existing w₄ m₄ _ _ => ?_
  cases existing with
  | some existing =>
    exact keeps_after_touch (mergeSharedWith_touches ownerId existing sharedWith)
      (live_neutrals (by decide)) hE fun _ w₅ m₅ _ _ =>
        keeps_of_touch (buildUploadResponse_touches env existing) (live_neutrals (by decide))
          (fun _ _ _ _ _ => trivial) hE
  | none =>
    refine Discipline.Keeps.bind (storeNew_live file context thumbnailFile sharedWith)
      fun media g' w₅ m₅ hi h => ?_
    obtain rfl := h.now hi
    refine keeps_after_touch (F := [.dedup]) (touches_await (by simp [Cmd.family]))
      (live_neutrals (by decide)) hE fun _ w₆ m₆ _ _ => ?_
    refine keeps_after_touch (QuotaService.recordUpload_touches ownerId _)
      (live_neutrals (by decide)) hE fun _ w₇ m₇ _ _ => ?_
    exact keeps_of_touch (buildUploadResponse_touches env media) (live_neutrals (by decide))
      (fun _ _ _ _ _ => trivial) hE

/-- The DECR of a release gives up whatever id is still held. -/
theorem keeps_release_decr {E : Err → Stage → World → Multiset String × Multiset String → Prop} :
    (liveDiscipline env).Keeps (await (.decr (semaphoreKey ownerId))) g w m
      (fun _ g' _ _ => g' = .idle) E := by
  refine keeps_await fun w' f r u hr hinv _ he => ?_
  obtain ⟨hinv', hlater⟩ := live_exec (c := .decr (semaphoreKey ownerId)) hinv
    (by simp [Cmd.family]) (by simp)
  rw [he] at hinv' hlater
  obtain ⟨rfl, rfl⟩ := Prod.mk.inj he
  have hzero : (liveDiscipline env).value .idle + f = f := zero_add f
  show LiveInv env _ ((liveDiscipline env).value .idle + f) ∧
    LiveLater env _ _ _ ((liveDiscipline env).value .idle + f) ∧ _
  rw [hzero]
  exact ⟨hinv'.drop, hlater.drop, fun _ _ _ _ => rfl⟩

theorem releaseSemaphore_live :
    (liveDiscipline env).Keeps (releaseSemaphore ownerId) g w m AnyStage AnyStage := by
  refine Discipline.Keeps.bind keeps_release_decr fun remaining g' w' m' hi h => ?_
  obtain rfl := h.now hi
  split
  · exact keeps_of_touch (F := [.semaphore]) (touches_await (by simp [Cmd.family]))
      (fun _ hc => semaphore_neutral hc) (fun _ _ _ _ _ => trivial) fun _ _ _ _ _ => trivial
  · exact Discipline.keeps_pure fun _ _ _ _ => trivial

theorem upload_live (file : File) (context : MediaContext) (thumbnailFile : Option File)
    (sharedWith : Option (List String)) :
    (liveDiscipline env).Keeps
      (upload env ownerId file context thumbnailFile sharedWith) .idle w m AnyStage AnyStage := by
  refine keeps_after_touch (acquireSemaphore_touches ownerId) (fun _ hc => semaphore_neutral hc)
    (fun _ _ _ _ _ => trivial) fun _ w₁ m₁ _ _ => ?_
  exact Discipline.Keeps.ensuring (uploadHeld_live file context thumbnailFile sharedWith)
    (fun _ _ _ _ _ _ => releaseSemaphore_live) fun _ _ _ _ _ _ => releaseSemaphore_live

end Uploads

/-! Deletes and reads -/

section Deletes
variable {env : Env} {w : World} {m : Multiset String × Multiset String}
  {id requesterId : String}

/-- The object of a row that is not active is nobody's. -/
theorem keeps_remove {g : Stage} {key : String} (hgone : Gone id w) (hpath : PathOf id key) :
    (liveDiscipline env).Keeps (await (.deleteObject key)) g w m
      (fun _ g' w' _ => g' = g ∧ Gone id w') AnyStage := by
  refine keeps_await fun w' f r u hr hinv _ he => ?_
  obtain ⟨row, hrow, hinactive⟩ := hgone.later hr.media
  obtain ⟨hinv', hlater⟩ := live_remove hinv fun i (hi : PathOf i key) => by
    obtain rfl := hi.id_eq hpath
    refine ⟨fun hstaged => ?_, fun row' hrow' => ?_⟩
    · have hnone := hinv.unsaved i (Multiset.mem_add.mpr (Or.inl hstaged))
      exact absurd (hrow.symm.trans hnone) (by simp)
    · obtain rfl := Option.some.inj (hrow'.symm.trans hrow)
      exact hinactive
  obtain ⟨rfl, rfl⟩ := Prod.mk.inj he
  exact ⟨hinv', hlater, fun u' n hu _ => ⟨rfl, (hgone.later hr.media).later
    (hlater.media.trans hu.media)⟩⟩

theorem removeDeleted_live {media : Media} (hgone : Gone media.id w)
    (hpaths : ∀ path, media.RefersTo path → PathOf media.id path) :
    (liveDiscipline env).Keeps (removeDeleted id requesterId media) .idle w m
      AnyStage AnyStage := by
  have hE {w m} : ∀ e : Err, (liveDiscipline env).Stays (AnyStage e .idle) w m :=
    fun _ _ _ _ _ => trivial
  have hrest (w m) : (liveDiscipline env).Keeps (do
      await (.delMeta (metaKey id))
      QuotaService.recordDelete requesterId (.int media.blobSize)) .idle w m AnyStage AnyStage :=
    keeps_after_touch (F := [.metadata]) (touches_await (by simp [Cmd.family]))
      (live_neutrals (by decide)) hE fun _ _ _ _ _ =>
        keeps_of_touch (QuotaService.recordDelete_touches requesterId _)
          (live_neutrals (by decide)) (fun _ _ _ _ _ => trivial) hE
  refine Discipline.Keeps.bind (keeps_remove hgone (hpaths _ (Or.inl rfl)))
    fun _ g' w₁ m₁ hi₁ h₁ => ?_
  obtain ⟨rfl, hgone₁⟩ := h₁.now hi₁
  split
  · next path hthumb =>
    have hp := hpaths path (Or.inr (Option.filter_eq_some_iff.mp hthumb).1)
    refine Discipline.Keeps.bind (keeps_remove hgone₁ hp) fun _ g' w₂ m₂ hi₂ h₂ => ?_
    obtain ⟨rfl, -⟩ := h₂.now hi₂
    exact hrest w₂ m₂
  · exact hrest w₁ m₁

theorem delete_live :
    (liveDiscipline env).Keeps (delete id requesterId) .idle w m AnyStage AnyStage := by
  have hneutral {c : Cmd} (hc : c.family.leavesObjects = true) :
      (liveDiscipline env).Neutral .idle c :=
    live_neutrals (F := [c.family]) (by simpa using hc) c (by simp)
  refine Discipline.Keeps.bind ((findActive_keeps (hneutral rfl)).mono (fun _ _ _ _ _ h => h)
    fun _ _ _ _ _ _ => trivial) fun media g₁ w₁ m₁ hi₁ h₁ => ?_
  obtain ⟨rfl, ⟨w₀, u₀, m₀, -, hinv₀, -, he₀, -, hr₀, hr₁⟩⟩ := h₁.now hi₁
  obtain ⟨rfl, -, -, hid, hrow, -⟩ := exec_findMedia he₀ rfl
  have hpaths := hinv₀.paths _ _ hrow
  refine keeps_sync_bind (fun _ _ _ _ _ _ => trivial) fun _ howner => ?_
  have hrequester : env.uuidIn requesterId = some media.ownerId := by
    have howner : media.ownerId = requesterId := by simpa using throwIf_eq_ok.mp howner
    rw [← howner]
    exact (hinv₀.canonical _ _ hrow).ownerId
  refine Discipline.Keeps.bind ((keeps_await_neutral (hneutral rfl)).mono (fun _ _ _ _ _ h => h)
    fun _ _ _ _ _ _ => trivial) fun _ g₂ w₂ m₂ hi₂ h₂ => ?_
  obtain ⟨rfl, ⟨w₃, u₃, m₃, hr₃, -, -, he₃, -, -, hr₂⟩⟩ := h₂.now hi₂
  obtain ⟨row, hrow₃, hb⟩ := (hr₁.trans hr₃).media _ _ hrow
  have hgone : Gone media.id u₃ := by
    have hrowid : row.id = media.id := hb.id_eq
    refine ⟨{ row with isActive := false }, ?_, rfl⟩
    rw [← hrowid]
    refine exec_softDelete he₃ (hrowid ▸ hid) (hrowid ▸ hrow₃) ?_
    rw [hb.ownerId_eq]
    exact hrequester
  exact removeDeleted_live (hgone.later hr₂.media) hpaths

theorem findReadable_live {α : Type} {f : Media → Svc α}
    (hf : ∀ media w m, (liveDiscipline env).Keeps (f media) .idle w m AnyStage AnyStage) :
    (liveDiscipline env).Keeps (findReadable id requesterId >>= f) .idle w m AnyStage AnyStage :=
  keeps_after_touch (findReadable_touches id requesterId) (live_neutrals (by decide))
    (fun _ _ _ _ _ => trivial) fun media w₁ m₁ _ _ => hf media w₁ m₁

theorem getObject_live {α : Type} {key : String} {f : Readable → α} :
    (liveDiscipline env).Keeps (do
      let bodyStream ← await (.getObject key)
      pure (f bodyStream)) .idle w m AnyStage AnyStage := by
  have hneutral : (liveDiscipline env).Neutral .idle (.getObject key) :=
    live_neutral (by simp [Cmd.family]) (by simp) (by simp [Cmd.family]) (Or.inr rfl)
  refine Discipline.Keeps.bind ((keeps_await_neutral hneutral).mono (fun _ _ _ _ _ h => h)
    fun _ _ _ _ _ _ => trivial) fun _ _ _ _ _ _ => ?_
  exact Discipline.keeps_pure fun _ _ _ _ => trivial

theorem streamThumbnail_live :
    (liveDiscipline env).Keeps (streamThumbnail id requesterId) .idle w m AnyStage AnyStage := by
  refine findReadable_live fun media w₁ m₁ => ?_
  split
  · exact Discipline.keeps_pure fun _ _ _ _ => trivial
  · exact getObject_live

/-- Every call keeps the objects of active rows. -/
theorem handle_live (x : Call) :
    (liveDiscipline env).Keeps (handle env x) .idle w m AnyStage AnyStage := by
  have hmap {α : Type} {f : α → Reply} {y : Svc α}
      (h : (liveDiscipline env).Keeps y .idle w m AnyStage AnyStage) :
      (liveDiscipline env).Keeps (f <$> y) .idle w m AnyStage AnyStage :=
    h.map fun _ _ _ _ _ _ => trivial
  cases x with
  | upload ownerId file context thumbnailFile sharedWith =>
    exact hmap (upload_live file context thumbnailFile sharedWith)
  | delete id requesterId => exact hmap delete_live
  | streamBlob id requesterId => exact hmap (findReadable_live fun media w₁ m₁ => getObject_live)
  | streamThumbnail id requesterId => exact hmap streamThumbnail_live
  | _ =>
    exact keeps_of_touch (handle_families env _)
      (live_neutrals (by simp [Call.families, Family.leavesObjects]))
      (fun _ _ _ _ _ => trivial) fun _ _ _ _ _ => trivial

end Deletes

/-! Runs -/

section Runs
variable {env : Env} {p q : ServicePool}
  {ok : ServicePool → Label Call LifecycleAct → Prop} {l : Label Call LifecycleAct}

/-- Calls and commands, with draws that are apart. -/
def DrawsFresh (env : Env) (p : ServicePool) (l : Label Call LifecycleAct) : Prop :=
  (∀ a, l ≠ .act a) ∧
    ∀ i, l = .step i → p.nextCmd i = some .randomUUID → env.DrawsApart (p.world.drawn + 1)

theorem live_sound (env : Env) :
    ((liveDiscipline env).withActs LifecycleAct.apply).Sound (fun _ _ _ _ _ => True)
      (DrawsFresh env) where
  call _ x _ := Discipline.Callable.withActs _
    ⟨rfl, fun _ _ _ => (handle_live x).upholds.mono fun _ _ _ _ _ _ => trivial⟩
  fork _ x _ := Discipline.Callable.withActs _
    ⟨rfl, fun _ _ _ => (handle_live x).upholds.mono fun _ _ _ _ _ _ => trivial⟩
  act _ a _ hok := absurd rfl (hok.1 a)
  step p i x log c k hok ht := by
    rintro rfl
    exact hok.2 i rfl (by simp [Pool.nextCmd, ht])

theorem lifecycle_drawn_le (hn : (lifecycleService env).next p l = some q) :
    p.world.drawn ≤ q.world.drawn := by
  rcases System.next_cases hn with ⟨x, -, rfl⟩ | ⟨a, -, rfl⟩ |
    ⟨i, pre, post, x, log, c, k, -, -, -, rfl⟩
  · exact Nat.le_refl _
  · cases a with
    | act a => exact (act_drawn a p.world).ge
    | purge key => exact Nat.le_refl _
  · exact drawn_le_exec

theorem live_act (a : Act) {w : World} {m : Multiset String × Multiset String}
    (hinv : LiveInv env w m) :
    LiveInv env (a.apply w) m ∧ LiveLater env w m (a.apply w) m := by
  have hbucket : (a.apply w).bucket = w.bucket := act_bucket a w
  have hmedia : (a.apply w).media = w.media := act_media a w
  have hdrawn : (a.apply w).drawn = w.drawn := act_drawn a w
  refine ⟨⟨hinv.toRowsPlaced.act a, fun id hid => (hinv.held id hid).later hdrawn.ge,
    fun id hid => ?_, hinv.apart, fun k row hrow => ?_⟩, MediaLater.of_eq hmedia, hdrawn.ge,
    fun id _ hid => ⟨hid, fun key _ hs => ?_⟩⟩
  · rw [hmedia]
    exact hinv.unsaved id hid
  · rw [hbucket]
    exact hinv.live k row (hmedia ▸ hrow)
  · rw [hbucket]
    exact hs

/-- An id that the account holds as staged is one of a thread. -/
theorem staged_thread {id : String} (h : id ∈ (stages.total p).1) :
    ∃ t ∈ p.threads, stages.of t = .staged id := by
  unfold Account.total at h
  generalize p.threads = ts at h ⊢
  induction ts with
  | nil => exact absurd h (Multiset.notMem_zero id)
  | cons t ts ih =>
    rw [List.map_cons, List.sum_cons] at h
    rcases Multiset.mem_add.mp h with h | h
    · refine ⟨t, List.mem_cons_self, ?_⟩
      have h : id ∈ (Stage.value (stages.of t)).1 := h
      cases hs : stages.of t with
      | idle =>
        rw [hs] at h
        exact absurd h (Multiset.notMem_zero id)
      | staged i =>
        rw [hs] at h
        rw [Multiset.mem_singleton.mp h]
      | discarding i =>
        rw [hs] at h
        exact absurd h (Multiset.notMem_zero id)
    · obtain ⟨t', ht', hs⟩ := ih h
      exact ⟨t', List.mem_cons_of_mem t ht', hs⟩

/-- A purge of a key that is not in use. -/
theorem live_purge {key : String} (hinv : LiveInv env p.world (stages.total p))
    (hfree : ¬ InUse p key) :
    LiveInv env (LifecycleAct.apply (.purge key) p.world) (stages.total p) ∧
      LiveLater env p.world (stages.total p) (LifecycleAct.apply (.purge key) p.world)
        (stages.total p) := by
  have hkept {path : String} (huse : InUse p path) :
      (LifecycleAct.apply (.purge key) p.world).bucket path = p.world.bucket path := by
    have hne : path ≠ key := by
      rintro rfl
      exact hfree huse
    exact Function.update_of_ne hne _ _
  refine ⟨⟨hinv.toRowsPlaced.of_back hinv.canonical (Nat.le_refl _)
      fun k m' hm' => ⟨m', hm', rfl, fun _ hp => hp⟩, hinv.held, hinv.unsaved, hinv.apart,
    fun k row hrow hact path hp => ?_⟩, MediaLater.refl _, Nat.le_refl _,
    fun id _ hid => ⟨hid, fun path hpath hs => ?_⟩⟩
  · rw [hkept (Or.inl ⟨row, (Table.get_some.mp hrow).1, hact, hp⟩)]
    exact hinv.live k row hrow hact path hp
  · obtain ⟨t, ht, hstage⟩ := staged_thread hid
    rw [hkept (Or.inr ⟨t, ht, id, hstage, hpath⟩)]
    exact hs

theorem live_runs (hok : ∀ p key, ok p (.act (.purge key)) → ¬ InUse p key)
    (h : (lifecycleService env).Runs ok ⟨World.empty, []⟩ p) (hu : env.DrawsApart p.world.drawn) :
    ((liveDiscipline env).withActs LifecycleAct.apply).Holds (fun _ _ _ _ _ => True) p := by
  induction h with
  | refl =>
    refine Discipline.holds_of_empty ⟨rowsPlaced_empty env, ?_, ?_, Multiset.nodup_zero, ?_⟩
    · exact fun id hid => absurd hid (Multiset.notMem_zero id)
    · exact fun id hid => absurd hid (Multiset.notMem_zero id)
    · exact fun k row hrow => absurd hrow (by simp [World.empty])
  | @tail p q l hr hstep hn ih =>
    have hp := ih (hu.mono (lifecycle_drawn_le hn))
    have hinv : LiveInv env p.world (stages.total p) := hp.inv
    cases l with
    | call x =>
      refine (hp.step (live_sound env) ⟨fun a => by simp, fun i hi => ?_⟩ hn).1
      exact absurd hi (by simp)
    | step i =>
      refine (hp.step (live_sound env) ⟨fun a => by simp, fun j hj hdraw => ?_⟩ hn).1
      -- a drawn id differs from those before, in the run up to here
      obtain rfl := Label.step.inj hj
      rcases System.next_cases hn with ⟨_, hl, -⟩ | ⟨_, hl, -⟩ |
        ⟨j, pre, post, x, log, c, k, hl, hts, hlen, rfl⟩
      · exact absurd hl (by simp)
      · exact absurd hl (by simp)
      · obtain rfl := Label.step.inj hl
        have hat : p.threads[i]? = some ⟨x, log, .step c k⟩ := by simp [hts, ← hlen]
        simp only [Pool.nextCmd, hat, Option.some.injEq] at hdraw
        subst hdraw
        exact hu
    | act a =>
      obtain rfl := (Option.some.inj hn).symm
      cases a with
      | act a =>
        obtain ⟨hi, hlater⟩ := live_act a hinv
        exact hp.change hi hlater
      -- the bucket's own rules are allowed to remove what is not in use
      | purge key =>
        obtain ⟨hi, hlater⟩ := live_purge hinv (hok p key hstep)
        exact hp.change hi hlater

/-- The clock starts at 0, and objects are stored later. -/
theorem lastModified_nonneg (h : (lifecycleService env).Runs ok ⟨World.empty, []⟩ p) :
    0 ≤ p.world.now ∧ ∀ key, 0 ≤ p.world.lastModified key := by
  induction h with
  | refl => exact ⟨Int.le_refl 0, fun _ => Int.le_refl 0⟩
  | @tail p q l _ _ hn ih =>
    obtain ⟨hnow, hkeys⟩ := ih
    rcases System.next_cases hn with ⟨x, -, rfl⟩ | ⟨a, -, rfl⟩ |
      ⟨i, pre, post, x, log, c, k, -, -, -, rfl⟩
    · exact ⟨hnow, hkeys⟩
    · cases a with
      | act a =>
        have hsame := act_lastModified a p.world
        exact ⟨Int.le_trans hnow (now_le_act a), fun key => (congrFun hsame key).symm ▸ hkeys key⟩
      | purge key => exact ⟨hnow, hkeys⟩
    · refine ⟨exec_now.symm ▸ hnow, fun key => ?_⟩
      by_cases hc : c.family = .bucket
      · cases c <;> simp only [Cmd.family, reduceCtorEq] at hc
        case putObject key' object =>
          show 0 ≤ Function.update p.world.lastModified key' p.world.now key
          by_cases hk : key = key'
          · rwa [hk, Function.update_self]
          · rw [Function.update_of_ne hk]
            exact hkeys key
        case getObject key' =>
          simp only [lifecycleService, System.withActs, service, Env.exec]
          split <;> exact hkeys key
        case deleteObject key' => exact hkeys key
      · exact (congrFun (exec_lastModified hc) key).symm ▸ hkeys key

/-- As long as no key is purged while it is in use, the keys of active rows hold objects. -/
theorem objects_kept (hok : ∀ p key, ok p (.act (.purge key)) → ¬ InUse p key)
    (h : (lifecycleService env).Runs ok ⟨World.empty, []⟩ p) (hu : env.DrawsApart p.world.drawn)
    {row : Media} (hrow : row ∈ p.world.media.rows) (hact : row.isActive = true) {path : String}
    (hp : row.RefersTo path) : (p.world.bucket path).isSome = true :=
  (live_runs hok h hu).inv.live row.id row (Table.get_key hrow) hact path hp

end Runs

/-- What is in use is younger than the days of every rule that it falls under: messages and media with
thumbnails are deleted in time, and no upload takes days. -/
def YoungInUse (rules : List LifecycleRule) (p : ServicePool) : Prop :=
  ∀ key, InUse p key → (p.world.bucket key).isSome = true → Young rules p.world key

/-- In every run in which nothing that is in use gets as old as its rules allow, the objects of every
active row exist in every state that is reached. -/
theorem active_rows_live (env : Env) (existingRules : List LifecycleRule)
    (thumbnailBlobTtlDays : Int) (p : ServicePool) (hu : env.DrawsApart p.world.drawn)
    (h : (lifecycleService env).Runs (fun p l =>
      PurgesExpired (LifecycleService.ensureLifecyclePolicies existingRules
        env.MESSAGE_BLOB_TTL_DAYS thumbnailBlobTtlDays) p l ∧
      YoungInUse (LifecycleService.ensureLifecyclePolicies existingRules
        env.MESSAGE_BLOB_TTL_DAYS thumbnailBlobTtlDays) p) ⟨World.empty, []⟩ p) :
    ∀ row ∈ p.world.media.rows, row.isActive = true → ∀ path, row.RefersTo path →
      (p.world.bucket path).isSome = true := by
  intro row hrow hact path hp
  refine objects_kept (fun p key hstep huse => ?_) h hu hrow hact hp
  obtain ⟨rule, hrule, hexpires⟩ := List.any_eq_true.mp hstep.1
  obtain ⟨hthere, hold⟩ := old_of_expires hrule hexpires
  exact hold (hstep.2 key huse hthere)

def jpegFile : File := ⟨"image/jpeg", 3, some [0xFF, 0xD8, 0xFF], none⟩

/-- An avatar with a thumbnail. -/
def avatarUpload : Call := .upload (exampleId 7) jpegFile .AVATAR (some jpegFile) none

/-- An upload that fails at its thumbnail, after the first PUT. -/
def brokenUpload : Call :=
  .upload (exampleId 7) ⟨"application/octet-stream", 1, some [0], none⟩ .MESSAGE
    (some ⟨"image/jpeg", 1, some [0], none⟩) none

instance (p : ServicePool) : Decidable p.AtRest :=
  inferInstanceAs (Decidable (∀ t ∈ p.threads, t.outcome.isSome = true))

/-- The rules of a bucket that had none before. -/
def exampleRules : List LifecycleRule := LifecycleService.ensureLifecyclePolicies [] 30 30

/-- The rule for `thumbnails/` knows nothing of the rows: 30 days after the upload the thumbnail of
an avatar is purged, and the row stays active and keeps its `thumbnail_path`. -/
theorem thumbnail_outlived :
    ¬ ∀ (env : Env) (existingRules : List LifecycleRule) (thumbnailBlobTtlDays : Int)
      (p : ServicePool), env.DrawsApart p.world.drawn →
      (lifecycleService env).Runs (PurgesExpired
        (LifecycleService.ensureLifecyclePolicies existingRules env.MESSAGE_BLOB_TTL_DAYS
          thumbnailBlobTtlDays)) ⟨World.empty, []⟩ p → p.AtRest →
      ∀ row ∈ p.world.media.rows, row.isActive = true → ∀ path, row.RefersTo path →
        (p.world.bucket path).isSome = true := by
  intro hall
  have hplay : ((lifecycleService exampleEnv).play (PurgesExpired exampleRules)
      ⟨World.empty, []⟩ (.call avatarUpload :: (List.replicate 22 (.step 0) ++
        List.replicate 3 (.step 1) ++ [.act (.act (.tick 2592000000)),
          .act (.purge s!"thumbnails/{exampleId 1}.bin")]))).any (fun p =>
      p.world.drawn = 2 ∧ p.AtRest ∧ (p.world.bucket s!"thumbnails/{exampleId 1}.bin").isSome = false ∧
        p.world.media.rows.any fun row => row.isActive ∧
          row.thumbnailPath = some s!"thumbnails/{exampleId 1}.bin") = true := by
    decide +kernel
  obtain ⟨p, hp, hplay⟩ := (Option.any_eq_true _ _).mp hplay
  obtain ⟨hdrawn, hrest, hmissing, hrow⟩ := of_decide_eq_true hplay
  obtain ⟨row, hmem, hrow⟩ := List.any_eq_true.mp hrow
  obtain ⟨hact, hthumb⟩ := of_decide_eq_true hrow
  have hexists := hall exampleEnv [] 30 p (exampleEnv_drawsApart (by omega))
    (System.runs_of_play hp) hrest row hmem hact _ (Or.inr hthumb)
  rw [hmissing] at hexists
  exact absurd hexists (by decide)

/-- The object that the failed upload leaves behind. -/
def brokenKey : String := s!"messages/{exampleId 7}/{exampleId 1}.bin"

/-- A failed upload, a message and an avatar; the message is deleted after 29 days, and two more
pass. -/
def deletedInTime : List (Label Call LifecycleAct) :=
  .call brokenUpload :: List.replicate 12 (.step 0) ++
    .call (.upload (exampleId 7) ⟨"application/octet-stream", 1, some [0], none⟩ .MESSAGE none none) ::
      List.replicate 16 (.step 1) ++
    .call (.upload (exampleId 7) jpegFile .AVATAR none none) :: List.replicate 18 (.step 3) ++
    .act (.act (.tick 2505600000)) :: .call (.delete (exampleId 2) (exampleId 7)) ::
      List.replicate 6 (.step 5) ++ [.act (.act (.tick 172800000))]

/-- Before 30 days have passed everything is in time. -/
theorem youngInUse_before {ok : ServicePool → Label Call LifecycleAct → Prop} {p : ServicePool}
    (h : (lifecycleService exampleEnv).Runs ok ⟨World.empty, []⟩ p)
    (hnow : p.world.now < 2592000000) : YoungInUse exampleRules p := by
  intro key _ _
  exact young_before ((lastModified_nonneg h).2 key) (by omega) (by omega)

/-- What a failed upload has left behind is purged; the avatar stays. -/
theorem active_rows_live_of_avatar : ∃ p : ServicePool, p.world.bucket brokenKey = none ∧
    (∃ row ∈ p.world.media.rows, row.isActive = false) ∧
    ∃ row ∈ p.world.media.rows, row.isActive = true ∧
      (p.world.bucket row.storagePath).isSome = true := by
  have hplay : ((lifecycleService exampleEnv).play
      (fun p l => PurgesExpired [] p l ∧ p.world.now < 2592000000) ⟨World.empty, []⟩
      deletedInTime).any (fun p => p.world.drawn ≤ 10 ∧ (∀ t ∈ p.threads, stages.of t = .idle) ∧
        PurgesExpired exampleRules p (.act (.purge brokenKey)) ∧
        (∀ row ∈ p.world.media.rows, row.isActive = true → row.thumbnailPath = none ∧
          (keyPrefix .avatars).toList.isPrefixOf row.storagePath.toList = true) ∧
        (p.world.media.rows.any fun row => !row.isActive) ∧
        p.world.media.rows.any fun row => row.isActive) = true := by
    decide +kernel
  obtain ⟨p, hp, hplay⟩ := (Option.any_eq_true _ _).mp hplay
  obtain ⟨hdrawn, hidle, hexpired, hrows, hdeleted, hrow⟩ := of_decide_eq_true hplay
  obtain ⟨gone, hgone, hinactive⟩ := List.any_eq_true.mp hdeleted
  obtain ⟨row, hmem, hact⟩ := List.any_eq_true.mp hrow
  -- without rules nothing is purged
  have hrun : (lifecycleService exampleEnv).Runs
      (fun p l => PurgesExpired exampleRules p l ∧ YoungInUse exampleRules p) ⟨World.empty, []⟩ p := by
    refine (System.runs_of_play hp).strengthen fun q l hq hstep => ⟨?_, youngInUse_before hq hstep.2⟩
    cases l with
    | call x => trivial
    | step i => trivial
    | act a =>
      cases a with
      | act a => trivial
      | purge key => exact absurd hstep.1 (by simp [PurgesExpired])
  -- of what is left, only the avatar is in use
  have hyoung : YoungInUse exampleRules p := by
    rintro key (⟨m, hm, hactive, hp | hp⟩ | ⟨t, ht, id, hs, -⟩) -
    · have hunder := List.isPrefixOf_iff_prefix.mp (hrows m hm hactive).2
      exact young_public (Or.inl (hp ▸ hunder))
    · exact absurd ((hrows m hm hactive).1.symm.trans hp) (by simp)
    · exact absurd ((hidle t ht).symm.trans hs) (by simp)
  let q : ServicePool := { p with world := LifecycleAct.apply (.purge brokenKey) p.world }
  have hpurged : (lifecycleService exampleEnv).Runs
      (fun p l => PurgesExpired exampleRules p l ∧ YoungInUse exampleRules p) ⟨World.empty, []⟩ q :=
    .tail (l := .act (.purge brokenKey)) hrun ⟨hexpired, hyoung⟩ rfl
  have hmissing : Function.update p.world.bucket brokenKey none brokenKey = none :=
    Function.update_self ..
  refine ⟨q, hmissing, ⟨gone, hgone, by simpa using hinactive⟩, row, hmem, hact, ?_⟩
  exact active_rows_live exampleEnv [] 30 q (exampleEnv_drawsApart hdrawn) hpurged row hmem hact _
    (Or.inl rfl)

end WhisprMedia
