import WhisprMedia.SerialDeletes

/-! Rows and their objects in serial runs: ids that were drawn, keys of these ids, and for every
active row the objects that it refers to. -/
namespace WhisprMedia
open Awaiting Keyed MediaService StorageService

section Stored
variable {env : Env} {w w' : World} {ownerId : String} {file : File} {context : MediaContext}
  {thumbnailFile : Option File} {m : Media}

theorem contextToStorageContext_ne (context : MediaContext) :
    contextToStorageContext context ≠ .thumbnails := by
  cases context <;> decide

theorem Stored.path (hs : Stored env ownerId file context thumbnailFile w w' m) {path : String}
    (hp : m.RefersTo path) : PathOf m.id path := by
  rcases hp with rfl | hp
  · exact ⟨_, _, hs.row.storagePath⟩
  · rcases hs.row.thumbnailPath with ⟨-, hn⟩ | ⟨p, -, hp', hbuild⟩
    · exact absurd (hn.symm.trans hp) (by simp)
    · obtain rfl := Option.some.inj (hp'.symm.trans hp)
      exact ⟨_, _, hbuild⟩

/-- The PUTs of an upload write under keys of its id. -/
theorem Stored.bucket_other (hs : Stored env ownerId file context thumbnailFile w w' m)
    {key : String} (hkey : ¬ PathOf m.id key) : w'.bucket key = w.bucket key := by
  have hne {p : String} (hp : m.RefersTo p) : key ≠ p := fun h => hkey (h ▸ hs.path hp)
  rw [hs.bucket]
  exact putAll_other (hne (Or.inl rfl)) fun p hp => hne (Or.inr hp)

theorem Stored.get (hs : Stored env ownerId file context thumbnailFile w w' m) (k : String) :
    w'.media.get k = if k = m.id then some m else w.media.get k := by
  rw [hs.media, get_insertMedia hs.fresh]

/-- A row that was there is not the new one, and stays. -/
theorem Stored.old_row (hs : Stored env ownerId file context thumbnailFile w w' m) {k : String}
    {m' : Media} (hm' : w.media.get k = some m') : w'.media.get k = some m' := by
  have hne : k ≠ m.id := by
    rintro rfl
    rw [hs.fresh] at hm'
    cases hm'
  rw [hs.get, if_neg hne, hm']

/-- A dedup entry after an upload is the upload's own, or was there before. -/
theorem Stored.entry (hs : Stored env ownerId file context thumbnailFile w w' m) {o i : String}
    {c : MediaContext} {d : List (Fin 16)} (hi : w'.dedupCache (dedupKey o c d) = some i) :
    (o = ownerId ∧ c = context ∧ d = env.sha256 (fileBuffer file) ∧ i = m.id) ∨
      w.dedupCache (dedupKey o c d) = some i := by
  rw [hs.dedup] at hi
  by_cases hkey : dedupKey o c d = uploadKey env ownerId file context
  · left
    rw [hkey, Function.update_self] at hi
    obtain ⟨ho, hc, hd⟩ := dedupKey_injective hkey
    exact ⟨ho, hc, hd, (Option.some.inj hi).symm⟩
  · rw [Function.update_of_ne hkey] at hi
    exact Or.inr hi

end Stored

/-! Where rows and objects are -/

/-- Rows are spelled as Postgres prints them, have ids that were drawn, and keys of these ids. -/
structure RowsPlaced (env : Env) (w : World) : Prop where
  canonical : RowsCanonical env w
  drawn : ∀ k m, w.media.get k = some m → ∃ n < w.drawn, m.id = env.randomUUID n
  paths : ∀ k m, w.media.get k = some m → ∀ path, m.RefersTo path → PathOf m.id path

section Placed
variable {env : Env} {w w' : World}

theorem rowsPlaced_empty (env : Env) : RowsPlaced env World.empty :=
  ⟨fun _ _ h => absurd h (by simp [World.empty]), fun _ _ h => absurd h (by simp [World.empty]),
    fun _ _ h => absurd h (by simp [World.empty])⟩

theorem Media.RefersTo.of_core {m m' : Media} {path : String} (h : m'.RefersTo path)
    (hc : m.core = m'.core) : m.RefersTo path := by
  obtain ⟨-, -, -, hs, ht, -⟩ := Media.core_eq hc
  unfold Media.RefersTo at h ⊢
  rwa [hs, ht] at h

/-- Rows that are found after a step come from rows with the same id and keys. -/
theorem RowsPlaced.of_back (h : RowsPlaced env w) (hcanon : RowsCanonical env w')
    (hdrawn : w.drawn ≤ w'.drawn)
    (hback : ∀ k m', w'.media.get k = some m' → ∃ m, w.media.get k = some m ∧ m'.id = m.id ∧
      ∀ path, m'.RefersTo path → m.RefersTo path) : RowsPlaced env w' := by
  refine ⟨hcanon, fun k m' hm => ?_, fun k m' hm path hp => ?_⟩
  · obtain ⟨m, hm, hid, -⟩ := hback k m' hm
    obtain ⟨n, hn, he⟩ := h.drawn k m hm
    exact ⟨n, by omega, hid.trans he⟩
  · obtain ⟨m, hm, hid, href⟩ := hback k m' hm
    rw [hid]
    exact h.paths k m hm path (href path hp)

/-- Worlds whose rows have the same cores. -/
theorem RowsPlaced.kept (h : RowsPlaced env w) (hcanon : RowsCanonical env w')
    (hmedia : ∀ k, (w'.media.get k).map Media.core = (w.media.get k).map Media.core)
    (hdrawn : w.drawn ≤ w'.drawn) : RowsPlaced env w' := by
  refine h.of_back hcanon hdrawn fun k m' hm => ?_
  have hk := (hmedia k).symm
  rw [hm, Option.map_some, Option.map_eq_some_iff] at hk
  obtain ⟨m, hm, hcore⟩ := hk
  exact ⟨m, hm, (Media.core_eq hcore).1, fun path hp => hp.of_core hcore⟩

/-- Keys of an id that has just been drawn are none of the rows'. -/
theorem RowsPlaced.not_path (h : RowsPlaced env w) {k id path : String} {m : Media}
    (hm : w.media.get k = some m) (hp : m.RefersTo path) (hid : DrawnBetween env w w' id)
    (hu : env.DrawsApart w'.drawn) : ¬ PathOf id path := by
  intro hpath
  obtain ⟨n, hn, he⟩ := h.drawn k m hm
  obtain ⟨n', hn', hlt, he'⟩ := hid
  have hids := (h.paths k m hm path hp).id_eq hpath
  have := hu n n' (by omega) hlt (he.symm.trans (hids.trans he'))
  omega

/-- Rows with different ids share no key. -/
theorem RowsPlaced.apart (h : RowsPlaced env w) {k k' path : String} {m m' : Media}
    (hm : w.media.get k = some m) (hm' : w.media.get k' = some m') (hp : m.RefersTo path)
    (hp' : m'.RefersTo path) : k = k' := by
  rw [← media_id hm, ← media_id hm']
  exact (h.paths k m hm path hp).id_eq (h.paths k' m' hm' path hp')

theorem DrawnBetween.le {id : String} (h : DrawnBetween env w w' id) : w.drawn ≤ w'.drawn := by
  obtain ⟨n, hn, hlt, -⟩ := h
  omega

theorem RowsPlaced.orphaned (h : RowsPlaced env w) (ho : Orphaned env w w')
    (hcanon : RowsCanonical env w') : RowsPlaced env w' := by
  obtain ⟨id, hid, -⟩ := ho.bucket
  exact h.kept hcanon (fun k => by rw [ho.media]) hid.le

theorem RowsPlaced.stored (h : RowsPlaced env w) {ownerId : String} {file : File}
    {context : MediaContext} {thumbnailFile : Option File} {m : Media}
    (hs : Stored env ownerId file context thumbnailFile w w' m)
    (hcanon : RowsCanonical env w') : RowsPlaced env w' := by
  refine ⟨hcanon, fun k m' hm => ?_, fun k m' hm => ?_⟩
  · rw [hs.get] at hm
    split at hm
    · obtain rfl := Option.some.inj hm
      obtain ⟨n, -, hlt, he⟩ := hs.id
      exact ⟨n, hlt, he⟩
    · obtain ⟨n, hn, he⟩ := h.drawn k m' hm
      exact ⟨n, Nat.lt_of_lt_of_le hn hs.id.le, he⟩
  · rw [hs.get] at hm
    split at hm
    · obtain rfl := Option.some.inj hm
      exact fun path => hs.path
    · exact h.paths k m' hm

theorem RowsPlaced.removed (h : RowsPlaced env w) {m : Media} (hr : Removed w w' m)
    (hrow : w.media.get m.id = some m) (hcanon : RowsCanonical env w') : RowsPlaced env w' := by
  refine h.of_back hcanon hr.drawn.ge fun k m' hm => ?_
  rw [hr.media] at hm
  split at hm
  · next hk =>
    obtain rfl := Option.some.inj hm
    exact ⟨m, hk ▸ hrow, rfl, fun _ hp => hp⟩
  · exact ⟨m', hm, rfl, fun _ hp => hp⟩

/-- The object of a row with another id is not touched by a delete. -/
theorem RowsPlaced.removed_bucket (h : RowsPlaced env w) {m m' : Media} (hr : Removed w w' m)
    (hrow : w.media.get m.id = some m) {k path : String} (hm' : w.media.get k = some m')
    (hk : k ≠ m.id) (hp : m'.RefersTo path) : w'.bucket path = w.bucket path := by
  rw [hr.bucket]
  refine removeAll_other fun p hp' => ?_
  rintro rfl
  exact hk (h.apart hm' hrow hp hp')

theorem act_canonical (a : Act) (h : RowsCanonical env w) : RowsCanonical env (a.apply w) :=
  fun k m hk => h k m (act_media a w ▸ hk)

theorem RowsPlaced.act (h : RowsPlaced env w) (a : Act) : RowsPlaced env (a.apply w) :=
  h.kept (act_canonical a h.canonical) (fun k => by rw [act_media]) (act_drawn a w).ge

theorem canonical_serve (x : Call) (h : RowsCanonical env w) :
    RowsCanonical env ((service env).serve x w).world :=
  Prog.Issues.run_rel (P := fun _ => True) (Prog.issues_true _) env.exec
    (fun u u' => RowsCanonical env u → RowsCanonical env u') (fun _ h => h)
    (fun _ _ _ h h' hu => h' (h hu)) (fun _ _ _ => rowsCanonical_exec) w h

theorem drawn_le_run {α : Type} {p : Prog Cmd Cmd.Reply α} :
    w.drawn ≤ (Prog.run env.exec p w).world.drawn :=
  Prog.Issues.run_rel (P := fun _ => True) (Prog.issues_true _) env.exec
    (fun u u' => u.drawn ≤ u'.drawn) (fun _ => Nat.le_refl _) (fun _ _ _ => Nat.le_trans)
    (fun _ _ _ => drawn_le_exec) w

theorem drawn_le_serve (x : Call) : w.drawn ≤ ((service env).serve x w).world.drawn := drawn_le_run

theorem duplicateOf_some {ownerId key : String} {m : Media}
    (h : duplicateOf env w ownerId key = some m) : ∃ id, w.dedupCache key = some id ∧
      env.uuidIn id = some m.id ∧ w.media.get m.id = some m ∧ m.isActive = true := by
  simp only [duplicateOf, Option.bind_eq_bind, Option.bind_eq_some_iff] at h
  obtain ⟨id, hid, u, -, i, hi, hm⟩ := h
  obtain ⟨hget, hp⟩ := Option.filter_eq_some_iff.mp hm
  obtain rfl := media_id hget
  exact ⟨id, (Option.filter_eq_some_iff.mp hid).1, hi, hget, (Bool.and_eq_true_iff.mp hp).1⟩

/-- The row of an entry is spelled as Postgres prints it, so it is the row that is found. -/
theorem RowsCanonical.duplicate (h : RowsCanonical env w) {ownerId key : String} {m : Media}
    (found : duplicateOf env w ownerId key = some m) : ∃ id, w.dedupCache key = some id ∧
      w.media.get m.id = some m ∧ m.isActive = true ∧
      ∀ m₀, w.media.get id = some m₀ → id = m.id ∧ m₀ = m := by
  obtain ⟨id, hid, hi, hget, hact⟩ := duplicateOf_some found
  refine ⟨id, hid, hget, hact, fun m₀ hm₀ => ?_⟩
  have hcanon := (h _ _ hm₀).id
  rw [media_id hm₀] at hcanon
  obtain rfl := Option.some.inj (hcanon.symm.trans hi)
  exact ⟨rfl, Option.some.inj (hm₀.symm.trans hget)⟩

end Placed

/-! The objects of active rows -/

/-- Every key that an active row refers to holds an object. -/
structure RowsLive (env : Env) (w : World) : Prop extends RowsPlaced env w where
  live : ∀ k m, w.media.get k = some m → m.isActive = true → ∀ path, m.RefersTo path →
    (w.bucket path).isSome

section Live
variable {env : Env} {w w' : World} {ownerId : String} {file : File} {context : MediaContext}
  {thumbnailFile : Option File} {m : Media}

theorem RowsLive.quiet (h : RowsLive env w) (hq : Quiet w w') (hcanon : RowsCanonical env w') :
    RowsLive env w' := by
  refine ⟨h.toRowsPlaced.kept hcanon hq.media hq.drawn, fun k m' hm hact path hp => ?_⟩
  obtain ⟨m, hm, hcore⟩ := hq.get_before hm
  obtain ⟨-, -, -, -, -, -, -, -, hactive⟩ := Media.core_eq hcore
  rw [hq.bucket]
  exact h.live k m hm (hactive ▸ hact) path (hp.of_core hcore)

theorem RowsLive.orphaned (h : RowsLive env w) (ho : Orphaned env w w')
    (hcanon : RowsCanonical env w') (hu : env.DrawsApart w'.drawn) : RowsLive env w' := by
  obtain ⟨id, hid, hbucket⟩ := ho.bucket
  refine ⟨h.toRowsPlaced.orphaned ho hcanon, fun k m hm hact path hp => ?_⟩
  rw [ho.media] at hm
  rw [hbucket _ (h.not_path hm hp hid hu)]
  exact h.live k m hm hact path hp

/-- The objects of a new row are there. -/
theorem Stored.live (hs : Stored env ownerId file context thumbnailFile w w' m) {path : String}
    (hp : m.RefersTo path) : (w'.bucket path).isSome := by
  rw [hs.bucket]
  rcases hs.row.thumbnailPath with ⟨-, hn⟩ | ⟨p, hfile, hp', hbuild⟩
  · rcases hp with rfl | hp
    · rw [putAll_main fun p hp => absurd (hn.symm.trans hp) (by simp)]
      rfl
    · exact absurd (hn.symm.trans hp) (by simp)
  · obtain ⟨thumbnail, rfl⟩ := Option.isSome_iff_exists.mp hfile
    have hne : m.storagePath ≠ p :=
      buildPath_thumbnails_ne (contextToStorageContext_ne context) hs.row.storagePath hbuild
    rcases hp with rfl | hp
    · rw [putAll_main fun p' hp => Option.some.inj (hp'.symm.trans hp) ▸ hne]
      rfl
    · obtain rfl := Option.some.inj (hp'.symm.trans hp)
      rw [hp', putAll_thumbnail]
      rfl

theorem RowsLive.stored (h : RowsLive env w)
    (hs : Stored env ownerId file context thumbnailFile w w' m) (hcanon : RowsCanonical env w')
    (hu : env.DrawsApart w'.drawn) : RowsLive env w' := by
  refine ⟨h.toRowsPlaced.stored hs hcanon, fun k m' hm hact path hp => ?_⟩
  rw [hs.get] at hm
  split at hm
  · obtain rfl := Option.some.inj hm
    exact hs.live hp
  · rw [hs.bucket_other (h.not_path hm hp hs.id hu)]
    exact h.live k m' hm hact path hp

theorem RowsLive.removed (h : RowsLive env w) (hr : Removed w w' m)
    (hrow : w.media.get m.id = some m) (hcanon : RowsCanonical env w') : RowsLive env w' := by
  refine ⟨h.toRowsPlaced.removed hr hrow hcanon, fun k m' hm hact path hp => ?_⟩
  rw [hr.media] at hm
  split at hm
  · obtain rfl := Option.some.inj hm
    exact Bool.noConfusion hact
  · next hk =>
    rw [h.removed_bucket hr hrow hm hk hp]
    exact h.live k m' hm hact path hp

theorem RowsLive.uploaded (h : RowsLive env w) {r : Except Err UploadMediaResponseDto}
    (hd : UploadDone env ownerId file context thumbnailFile w r w') (hcanon : RowsCanonical env w')
    (hu : env.DrawsApart w'.drawn) : RowsLive env w' := by
  cases hd with
  | refused kept => exact h.quiet kept hcanon
  | reused m found kept answer => exact h.quiet kept hcanon
  | orphaned left => exact h.orphaned left hcanon hu
  | uncharged m stored quotas missing cached => exact h.stored stored hcanon hu
  | stored m missed stored charged answer => exact h.stored stored hcanon hu

theorem RowsLive.deleted (h : RowsLive env w) {id requesterId : String} {r : Except Err Unit}
    (hd : DeleteDone env id requesterId w r w') (hcanon : RowsCanonical env w') :
    RowsLive env w' := by
  cases hd with
  | refused unowned => exact h
  | deleted m named row active owner removed released => exact h.removed removed row hcanon

theorem RowsLive.act (h : RowsLive env w) (a : Act) : RowsLive env (a.apply w) := by
  refine ⟨h.toRowsPlaced.act a, fun k m hm => ?_⟩
  rw [act_media] at hm
  rw [act_bucket]
  exact h.live k m hm

/-- An upload keeps every row but for its ACL. -/
theorem UploadDone.row {r : Except Err UploadMediaResponseDto}
    (hd : UploadDone env ownerId file context thumbnailFile w r w') {k : String}
    (hm : w.media.get k = some m) : ∃ m', w'.media.get k = some m' ∧ m'.core = m.core := by
  have hnew {m₁ : Media} (hs : Stored env ownerId file context thumbnailFile w w' m₁) :
      w'.media.get k = some m := hs.old_row hm
  cases hd with
  | refused kept => exact kept.get hm
  | reused m₁ found kept answer => exact kept.get hm
  | orphaned left => exact ⟨m, by rw [left.media, hm], rfl⟩
  | uncharged m₁ stored quotas missing cached => exact ⟨m, hnew stored, rfl⟩
  | stored m₁ missed stored charged answer => exact ⟨m, hnew stored, rfl⟩

end Live

end WhisprMedia
