import WhisprMedia.AclGrants
import WhisprMedia.PutObjects
import WhisprMedia.QuotaEntries

/-! The ACL of a media against the users its owner has listed. Three writers unite sets of texts;
the column holds uuids in the form Postgres prints, so a text that is new to the set may be a uuid
that is stored already, or the owner's. -/
namespace WhisprMedia
open Awaiting Keyed MediaService QuotaService

/-! Unions as lists -/

/-- A union appends what it adds. -/
theorem foldl_setAdd_eq (s xs : List String) : ∃ fresh, xs.foldl setAdd s = s ++ fresh ∧
    fresh.Nodup ∧ ∀ y, y ∈ fresh ↔ y ∈ xs ∧ y ∉ s := by
  induction xs generalizing s with
  | nil => exact ⟨[], by simp⟩
  | cons x xs ih =>
    rw [List.foldl_cons]
    by_cases hx : x ∈ s
    · obtain ⟨fresh, heq, hnd, hmem⟩ := ih s
      refine ⟨fresh, ?_, hnd, fun y => ?_⟩
      · rw [setAdd, if_pos (by simpa using hx), heq]
      · rw [hmem, List.mem_cons]
        constructor
        · exact fun h => ⟨Or.inr h.1, h.2⟩
        · rintro ⟨rfl | h, hy⟩
          · exact absurd hx hy
          · exact ⟨h, hy⟩
    · obtain ⟨fresh, heq, hnd, hmem⟩ := ih (s ++ [x])
      refine ⟨x :: fresh, ?_, ?_, fun y => ?_⟩
      · rw [setAdd, if_neg (by simpa using hx), heq, List.append_assoc, List.singleton_append]
      · refine List.nodup_cons.mpr ⟨fun h => ?_, hnd⟩
        exact ((hmem x).mp h).2 (by simp)
      · rw [List.mem_cons, hmem, List.mem_cons]
        by_cases hy : y = x
        · simp [hy, hx]
        · simp [hy]

theorem newSet_of_nodup {xs : List String} (h : xs.Nodup) : newSet xs = xs := by
  suffices hall : ∀ s : List String, (s ++ xs).Nodup → xs.foldl setAdd s = s ++ xs from hall [] h
  clear h
  induction xs with
  | nil => simp
  | cons x xs ih =>
    intro s hs
    have hx : x ∉ s := fun hx =>
      (List.nodup_append.mp hs).2.2 x hx x List.mem_cons_self rfl
    rw [List.foldl_cons, setAdd, if_neg (by simpa using hx)]
    rw [← List.singleton_append, ← List.append_assoc] at hs
    rw [ih (s ++ [x]) hs, List.append_assoc, List.singleton_append]

/-- A union with an ACL without repetitions. -/
theorem mergeUsers_eq {ownerId : String} {m : Media} (h : m.acl.Nodup) (uids : List String) :
    ∃ fresh, mergeUsers ownerId m.sharedWith uids = m.acl ++ fresh ∧ fresh.Nodup ∧
      ∀ y, y ∈ fresh ↔ y ∈ otherUsers ownerId uids ∧ y ∉ m.acl := by
  have hset : newSet (m.sharedWith.getD []) = m.acl := newSet_of_nodup h
  unfold mergeUsers
  rw [hset]
  exact foldl_setAdd_eq m.acl _

/-- The length tells whether a union with an ACL without repetitions has added anything. -/
theorem mergeUsers_of_length {ownerId : String} {m : Media} (h : m.acl.Nodup) {uids : List String}
    (hlen : (mergeUsers ownerId m.sharedWith uids).length = m.acl.length) :
    mergeUsers ownerId m.sharedWith uids = m.acl := by
  obtain ⟨fresh, heq, -, -⟩ := @mergeUsers_eq ownerId m h uids
  rw [heq, List.length_append] at hlen
  have hnil : fresh = [] := List.length_eq_zero_iff.mp (by omega)
  rw [heq, hnil, List.append_nil]

theorem added_of_length {ownerId : String} {m : Media} (h : m.acl.Nodup) {uids : List String}
    (hlen : (mergeUsers ownerId m.sharedWith uids).length ≠ m.acl.length) :
    ∃ uid ∈ otherUsers ownerId uids, uid ∉ m.acl := by
  obtain ⟨fresh, heq, -, hmem⟩ := @mergeUsers_eq ownerId m h uids
  cases fresh with
  | nil =>
    rw [heq, List.append_nil] at hlen
    exact absurd rfl hlen
  | cons uid fresh => exact ⟨uid, (hmem uid).mp List.mem_cons_self⟩

theorem mapM_eq_map {f : String → Option String} {l l' : List String} (h : l.mapM f = some l') :
    l.map f = l'.map some := by
  induction l generalizing l' with
  | nil =>
    obtain rfl := Option.some.inj h
    rfl
  | cons x l ih =>
    rw [List.mapM_cons] at h
    simp only [Option.bind_eq_bind, Option.bind_eq_some_iff, Option.pure_def,
      Option.some.injEq] at h
    obtain ⟨v, hv, vs, hvs, rfl⟩ := h
    rw [List.map_cons, List.map_cons, hv, ih hvs]

/-- Texts with different values give a list of different values. -/
theorem mapM_nodup {f : String → Option String} {l l' : List String} (h : l.mapM f = some l')
    (hnd : l.Nodup) (hinj : ∀ x ∈ l, ∀ y ∈ l, f x = f y → x = y) : l'.Nodup := by
  have hmap : (l.map f).Nodup := List.Nodup.map_on hinj hnd
  rw [mapM_eq_map h] at hmap
  exact List.Nodup.of_map some hmap

/-! Texts and uuids -/

/-- The texts that a writer takes for new, as they are neither stored nor the text it knows the
owner by, are uuids other than the owner's, other than the stored ones and different from each
other. -/
structure SpelledApart (env : Env) (ownerText owner : String) (stored uids : List String) : Prop where
  notOwner : ∀ uid ∈ otherUsers ownerText uids, uid ∉ stored → env.uuidIn uid ≠ some owner
  notStored : ∀ uid ∈ otherUsers ownerText uids, uid ∉ stored → ∀ v ∈ stored, env.uuidIn uid ≠ some v
  apart : ∀ uid ∈ otherUsers ownerText uids, uid ∉ stored → ∀ uid' ∈ otherUsers ownerText uids,
    uid' ∉ stored → env.uuidIn uid = env.uuidIn uid' → uid = uid'

/-- The ACL consists of these users, each once, and not of the owner. -/
structure AclOf (owner : String) (users : String → Prop) (acl : List String) : Prop where
  nodup : acl.Nodup
  notOwner : owner ∉ acl
  mem : ∀ u, u ∈ acl ↔ u ≠ owner ∧ users u

section Writes
variable {env : Env} {ownerText owner : String} {stored uids acl : List String}
  {users : String → Prop}

/-- What is stored of a union. -/
theorem aclOf_union (h : AclOf owner users stored) (hcanon : ∀ v ∈ stored, env.uuidIn v = some v)
    (htext : env.uuidIn ownerText = some owner) (hne : ∀ uid ∈ uids, uid ≠ "")
    (hspelled : SpelledApart env ownerText owner stored uids) {fresh : List String}
    (hfresh : fresh.Nodup) (hmem : ∀ y, y ∈ fresh ↔ y ∈ otherUsers ownerText uids ∧ y ∉ stored)
    (hacl : (stored ++ fresh).mapM env.uuidIn = some acl) :
    AclOf owner (fun u => users u ∨ ∃ uid ∈ uids, env.uuidIn uid = some u) acl := by
  obtain ⟨hback, hforth⟩ := mapM_mem hacl
  constructor
  · -- equal values have equal texts, since stored texts are their own values
    refine mapM_nodup hacl (List.nodup_append.mpr ⟨h.nodup, hfresh, ?_⟩) ?_
    · rintro x hx y hy rfl
      exact ((hmem x).mp hy).2 hx
    · intro x hx y hy hxy
      rcases List.mem_append.mp hx with hx | hx <;> rcases List.mem_append.mp hy with hy | hy
      · exact Option.some.inj ((hcanon x hx).symm.trans (hxy.trans (hcanon y hy)))
      · obtain ⟨hother, hnew⟩ := (hmem y).mp hy
        exact absurd (hxy.symm.trans (hcanon x hx)) (hspelled.notStored y hother hnew x hx)
      · obtain ⟨hother, hnew⟩ := (hmem x).mp hx
        exact absurd (hxy.trans (hcanon y hy)) (hspelled.notStored x hother hnew y hy)
      · obtain ⟨hother, hnew⟩ := (hmem x).mp hx
        obtain ⟨hother', hnew'⟩ := (hmem y).mp hy
        exact hspelled.apart x hother hnew y hother' hnew' hxy
  · intro ho
    obtain ⟨uid, huid, hv⟩ := hback owner ho
    rcases List.mem_append.mp huid with hs | hf
    · obtain rfl := Option.some.inj ((hcanon uid hs).symm.trans hv)
      exact h.notOwner hs
    · obtain ⟨hother, hnew⟩ := (hmem uid).mp hf
      exact hspelled.notOwner uid hother hnew hv
  · intro u
    constructor
    · intro hu
      obtain ⟨uid, huid, hv⟩ := hback u hu
      rcases List.mem_append.mp huid with hs | hf
      · obtain rfl := Option.some.inj ((hcanon uid hs).symm.trans hv)
        obtain ⟨hne', husers⟩ := (h.mem uid).mp hs
        exact ⟨hne', Or.inl husers⟩
      · obtain ⟨hother, hnew⟩ := (hmem uid).mp hf
        refine ⟨?_, Or.inr ⟨uid, (mem_otherUsers.mp hother).1, hv⟩⟩
        rintro rfl
        exact hspelled.notOwner uid hother hnew hv
    · rintro ⟨hu, husers | ⟨uid, huid, hv⟩⟩
      · have hs := (h.mem u).mpr ⟨hu, husers⟩
        obtain ⟨v, hv, huv⟩ := hforth u (List.mem_append_left _ hs)
        obtain rfl := Option.some.inj ((hcanon u hs).symm.trans huv)
        exact hv
      · have hother : uid ∈ otherUsers ownerText uids := by
          refine mem_otherUsers.mpr ⟨huid, hne uid huid, ?_⟩
          rintro rfl
          exact hu (Option.some.inj (hv.symm.trans htext))
        have hin : uid ∈ stored ++ fresh := by
          by_cases hs : uid ∈ stored
          · exact List.mem_append_left _ hs
          · exact List.mem_append_right _ ((hmem uid).mpr ⟨hother, hs⟩)
        obtain ⟨v, hmemv, huv⟩ := hforth uid hin
        obtain rfl := Option.some.inj (hv.symm.trans huv)
        exact hmemv

theorem aclOf_nil (owner : String) : AclOf owner (fun _ => False) [] := by
  refine ⟨List.nodup_nil, List.not_mem_nil, fun u => ⟨fun h => absurd h List.not_mem_nil, ?_⟩⟩
  exact fun h => h.2.elim

theorem AclOf.congr {users' : String → Prop} (h : AclOf owner users acl)
    (hu : ∀ u, users u ↔ users' u) : AclOf owner users' acl :=
  ⟨h.nodup, h.notOwner, fun u => (h.mem u).trans (by rw [hu u])⟩

/-- Texts that are spelled as Postgres prints them are spelled apart. -/
theorem spelledApart_of_canonical (htext : ownerText = owner)
    (h : ∀ uid ∈ uids, env.uuidIn uid = some uid) :
    SpelledApart env ownerText owner stored uids := by
  subst htext
  have hother : ∀ uid ∈ otherUsers ownerText uids, env.uuidIn uid = some uid := fun uid huid =>
    h uid (mem_otherUsers.mp huid).1
  refine ⟨fun uid huid _ ho => ?_, fun uid huid hnew v hv hval => ?_,
    fun uid huid _ uid' huid' _ heq => ?_⟩
  · exact (mem_otherUsers.mp huid).2.2 (Option.some.inj ((hother uid huid).symm.trans ho))
  · obtain rfl := Option.some.inj ((hother uid huid).symm.trans hval)
    exact hnew hv
  · rw [hother uid huid, hother uid' huid'] at heq
    exact Option.some.inj heq

end Writes

/-! The writers -/

/-- The row becomes one with the union as its ACL, in the form Postgres stores it. -/
structure Merged (env : Env) (m : Media) (uids : List String) (rows rows' : Table Media.id)
    (m' : Media) : Prop where
  acl : (mergeUsers m.ownerId m.sharedWith uids).mapM env.uuidIn = some m'.acl
  row : m' = { m with sharedWith := m'.sharedWith }
  rows : ∀ k, rows'.get k = if k = m.id then some m' else rows.get k

/-- There is a new row with the other users as its ACL, in the form Postgres stores it. -/
structure Inserted (env : Env) (ownerId : String) (uids : List String)
    (rows rows' : Table Media.id) (m : Media) : Prop where
  fresh : rows.get m.id = none
  owner : env.uuidIn ownerId = some m.ownerId
  acl : (newSet (otherUsers ownerId uids)).mapM env.uuidIn = some m.acl
  rows : rows' = rows.insert m

theorem mapM_self {f : String → Option String} {l : List String} (h : ∀ x ∈ l, f x = some x) :
    l.mapM f = some l := by
  induction l with
  | nil => rfl
  | cons x l ih =>
    rw [List.mapM_cons, h x List.mem_cons_self, ih fun y hy => h y (List.mem_cons_of_mem _ hy)]
    rfl

section Writers
variable {env : Env} {w : World} {ownerId : String} {m : Media} {uids : List String}
  {sharedWith : Option (List String)}

/-- Parts that do not address the rows. -/
theorem ends_rows {α : Type} {F : List Family} {x : Svc α} (hx : Touches F x)
    (hF : ∀ f ∈ F, f.writesMedia = false) :
    ProgE.Ends env.exec x w (fun _ w' => w'.media = w.media) (fun _ w' => w'.media = w.media) :=
  ends_of_touches (S := fun u u' => u'.media = u.media) hx (fun _ => rfl)
    (fun _ _ _ h h' => h'.trans h) fun _ _ hc => exec_media (hF _ hc)

/-- Nothing is written where the union has added nothing. -/
theorem merged_unchanged (hnodup : m.acl.Nodup) (hcanon : RowsCanonical env w)
    (hm : w.media.get m.id = some m)
    (hlen : (mergeUsers m.ownerId m.sharedWith uids).length = m.acl.length) :
    Merged env m uids w.media w.media m := by
  refine ⟨?_, rfl, fun k => ?_⟩
  · rw [mergeUsers_of_length hnodup hlen]
    exact mapM_self (hcanon _ _ hm).acl
  · split
    · next hk => rw [hk, hm]
    · rfl

theorem updateSharedWith_ends {user i : String} (hu : env.uuidIn user = some m.ownerId)
    (hi : env.uuidIn i = some m.id) (hm : w.media.get m.id = some m) :
    ProgE.Ends env.exec (await (.updateSharedWith user i
        (some (mergeUsers m.ownerId m.sharedWith uids)))) w
      (fun _ w' => ∃ m', Merged env m uids w.media w'.media m')
      (fun _ w' => w'.media = w.media) := by
  refine ends_await fun r u he => ?_
  simp only [Env.exec, hu, hi, Env.uuidArrayIn] at he
  cases hacl : (mergeUsers m.ownerId m.sharedWith uids).mapM env.uuidIn with
  | none =>
    rw [hacl] at he
    obtain ⟨rfl, rfl⟩ := Prod.mk.inj he
    rfl
  | some acl =>
    rw [hacl] at he
    obtain ⟨rfl, rfl⟩ := Prod.mk.inj he
    refine ⟨{ m with sharedWith := some acl }, hacl, rfl, fun k => ?_⟩
    rw [get_updateOwned, hm, Option.map_some, if_pos rfl]

/-- A share leaves the rows, or unites the ACL of the row of its id. -/
theorem share_merges {i requesterId : String} (hcanon : RowsCanonical env w)
    (hnodup : ∀ k m, w.media.get k = some m → m.acl.Nodup) :
    ProgE.Ends env.exec (share i requesterId uids) w
      (fun _ w' => ∃ m m', env.uuidIn i = some m.id ∧ w.media.get m.id = some m ∧
        m.isActive = true ∧ m.ownerId = requesterId ∧ Merged env m uids w.media w'.media m')
      (fun _ w' => w'.media = w.media) := by
  refine ProgE.Ends.bind ((findActive_ends hcanon).mono (fun _ _ h => h) fun _ _ h => by rw [h.1])
    fun m w₁ h => ?_
  obtain ⟨rfl, hi, hm, hact⟩ := h
  refine ends_sync_bind (fun _ _ => rfl) fun _ howner => ?_
  have ho := enforceOwner_eq_ok.mp howner
  have hset : newSet (m.sharedWith.getD []) = m.acl := newSet_of_nodup (hnodup _ _ hm)
  dsimp only
  rw [hset]
  split
  · next hlen =>
    exact ProgE.ends_pure ⟨m, m, hi, hm, hact, ho, merged_unchanged (hnodup _ _ hm) hcanon hm hlen⟩
  · next hlen =>
    have hsome : (mergeUsers m.ownerId m.sharedWith uids).isEmpty = false := by
      obtain ⟨uid, huid, -⟩ := added_of_length (hnodup _ _ hm) hlen
      have hmem := mem_mergeUsers (m := m) |>.mpr (Or.inr huid)
      cases hmerge : mergeUsers m.ownerId m.sharedWith uids with
      | nil =>
        rw [hmerge] at hmem
        exact absurd hmem List.not_mem_nil
      | cons _ _ => rfl
    rw [hsome]
    refine ProgE.Ends.bind (updateSharedWith_ends (ho ▸ (hcanon _ _ hm).ownerId) hi hm)
      fun _ w₂ h₂ => ?_
    obtain ⟨m', hmerged⟩ := h₂
    refine ends_await_bind (v := ()) rfl (ProgE.ends_pure ?_)
    exact ⟨m, m', hi, hm, hact, ho, hmerged⟩

theorem mergeSharedWith_merges (hcanon : RowsCanonical env w) (hnodup : m.acl.Nodup)
    (hm : w.media.get m.id = some m) (hu : env.uuidIn ownerId = some m.ownerId) :
    ProgE.Ends env.exec (mergeSharedWith ownerId m sharedWith) w
      (fun _ w' => ∃ m', Merged env m (sharedWith.getD []) w.media w'.media m')
      (fun _ w' => w'.media = w.media) := by
  unfold mergeSharedWith
  dsimp only
  split
  · refine ProgE.Ends.bind (updateSharedWith_ends hu (hcanon _ _ hm).id hm) fun _ w₁ h₁ => ?_
    refine ends_await_ok (v := ()) rfl ?_
    exact h₁
  · next hsame =>
    refine ProgE.ends_pure ⟨m, merged_unchanged hnodup hcanon hm ?_⟩
    -- an empty list adds nothing either
    by_cases hempty : sharedWith.getD [] = []
    · rw [hempty]
      show (newSet m.acl).length = m.acl.length
      rw [newSet_of_nodup hnodup]
    · by_contra hlen
      exact hsame (by simpa [hempty, Media.acl] using hlen)

/-- The ACL of a new row, as a list. -/
theorem mapM_initialSharedWith {s : Option (List String)}
    (h : env.uuidArrayIn (initialSharedWith ownerId sharedWith) = some s) :
    (newSet (otherUsers ownerId (sharedWith.getD []))).mapM env.uuidIn = some (s.getD []) := by
  cases sharedWith with
  | none =>
    obtain rfl := Option.some.inj h
    rfl
  | some uids =>
    simp only [initialSharedWith] at h
    split at h
    · next hempty =>
      obtain rfl := Option.some.inj h
      rw [Option.getD_some, List.isEmpty_iff.mp hempty]
      rfl
    · obtain ⟨acl, hacl, rfl⟩ := Option.map_eq_some_iff.mp h
      exact hacl

/-- The INSERT of a row with an id that was drawn. -/
theorem saveMedia_inserts {media : Media} (hid : env.uuidIn media.id = some media.id)
    (hacl : media.sharedWith = initialSharedWith ownerId sharedWith) :
    ProgE.Ends env.exec (saveMedia ownerId media) w
      (fun _ w' => ∃ m, media.id = m.id ∧
        Inserted env ownerId (sharedWith.getD []) w.media w'.media m)
      (fun _ w' => w'.media = w.media) := by
  refine ProgE.Ends.tryCatch (E := fun _ w' => w'.media = w.media)
    (ends_await fun r u he => ?_) fun e w₁ h₁ => ?_
  · rcases exec_saveMedia he with ⟨m, rfl, hin, howner, hfresh, rfl⟩ | ⟨e, rfl, rfl⟩
    · obtain ⟨hid', -, hacl', -⟩ := mediaIn_eq hin
      rw [hacl] at hacl'
      refine ⟨m, Option.some.inj (hid.symm.trans hid'), hfresh, howner, ?_, rfl⟩
      exact mapM_initialSharedWith hacl'
    · rfl
  · exact ProgE.Ends.bind ((ends_rows (deleteStored_touches _ _) (by decide)).mono
      (fun _ _ h => h.trans h₁) fun _ _ h => h.trans h₁) fun _ _ h => ProgE.ends_throw h

/-- The row of a new upload. -/
theorem storeNew_inserts {file : File} {context : MediaContext} {thumbnailFile : Option File} :
    ProgE.Ends env.exec (storeNew env ownerId file context thumbnailFile sharedWith) w
      (fun media w' => ∃ m, media.id = m.id ∧
        Inserted env ownerId (sharedWith.getD []) w.media w'.media m)
      (fun _ w' => w'.media = w.media) := by
  refine ends_await_bind (v := env.randomUUID w.drawn) rfl ?_
  refine ends_sync_bind (fun _ _ => rfl) fun path _ => ?_
  refine ends_await_bind (v := ()) rfl ?_
  refine ProgE.Ends.bind (ends_rows (storeThumbnail_touches ownerId _ thumbnailFile) (by decide))
    fun thumbnailPath w₁ h₁ => ?_
  refine ProgE.Ends.bind ((ends_rows (computeExpiresAt_touches env context) (by decide)).mono
    (fun _ _ h => h.trans h₁) fun _ _ h => h.trans h₁) fun expiresAt w₂ h₂ => ?_
  have hrows : w₂.media = w.media := h₂
  refine ProgE.Ends.bind ((saveMedia_inserts (env.randomUUID_canonical _) rfl).mono
    (fun _ _ h => h) fun _ _ h => h.trans hrows) fun _ w₃ h₃ => ?_
  rw [hrows] at h₃
  exact ProgE.ends_pure h₃

/-- What an upload that returns has done to the ACLs. -/
inductive UploadAcl (env : Env) (ownerId : String) (uids : List String) (duplicate : Option Media)
    (rows : Table Media.id) (dto : UploadMediaResponseDto) (rows' : Table Media.id) : Prop
  | merged (m m' : Media) (found : duplicate = some m) (answer : dto.media_id = m.id)
      (merged : Merged env m uids rows rows' m')
  | inserted (m : Media) (missed : duplicate = none) (answer : dto.media_id = m.id)
      (inserted : Inserted env ownerId uids rows rows' m)

variable {file : File} {context : MediaContext} {thumbnailFile : Option File}

/-- The row of a dedup entry is the uploader's. -/
theorem duplicate_owned (h : MediaStores env w)
    (found : duplicateOf env w ownerId (uploadKey env ownerId file context) = some m) :
    w.media.get m.id = some m ∧ env.uuidIn ownerId = some m.ownerId := by
  obtain ⟨id, hid, hm, -, hrow⟩ := h.canonical.duplicate found
  obtain ⟨m₀, hm₀, ho⟩ := h.dedup ownerId context _ id hid
  rw [(hrow m₀ hm₀).2] at ho
  exact ⟨hm, ho⟩

theorem uploadHeld_acl (h : MediaStores env w)
    (hnodup : ∀ k m, w.media.get k = some m → m.acl.Nodup) :
    ProgE.Ends env.exec (uploadHeld env ownerId file context thumbnailFile sharedWith) w
      (fun dto w' => UploadAcl env ownerId (sharedWith.getD [])
        (duplicateOf env w ownerId (uploadKey env ownerId file context)) w.media dto w'.media)
      (fun _ w' => w'.media = w.media ∨
        ∃ m, Inserted env ownerId (sharedWith.getD []) w.media w'.media m) := by
  refine ends_calm_bind (faithful_exec env) (authorizeGroupIconUpload_touches env context ownerId)
    (by decide) (fun _ _ h => Or.inl h.rows) fun _ w₁ h₁ => ?_
  refine ends_calm_bind (faithful_exec env) (enforceQuota_touches ownerId _) (by decide)
    (fun _ _ h => Or.inl (h₁.trans h).rows) fun _ w₂ h₂ => ?_
  refine ends_calm_bind (faithful_exec env) (validateFile_touches env file context) (by decide)
    (fun _ _ h => Or.inl ((h₁.trans h₂).trans h).rows) fun _ w₃ h₃ => ?_
  have hcalm : Calm w w₃ := (h₁.trans h₂).trans h₃
  refine ProgE.Ends.bind ((findDuplicate_ends _).mono (fun _ _ h => h) fun _ w' h => ?_)
    fun duplicate w₄ h₄ => ?_
  · rw [h]
    exact Or.inl hcalm.rows
  obtain ⟨rfl, hdup⟩ := h₄
  have hkey : duplicate = duplicateOf env w ownerId (uploadKey env ownerId file context) :=
    hdup.trans (duplicateOf_calm hcalm _)
  rw [← hkey, ← hcalm.rows]
  have hanswer {media : Media} {u : World}
      (hq : ∀ dto : UploadMediaResponseDto, dto.media_id = media.id →
        UploadAcl env ownerId (sharedWith.getD []) duplicate w₄.media dto u.media) :
      ProgE.Ends env.exec (buildUploadResponse env media) u
        (fun dto w' => UploadAcl env ownerId (sharedWith.getD []) duplicate w₄.media dto w'.media)
        (fun _ w' => w'.media = w₄.media ∨
          ∃ m, Inserted env ownerId (sharedWith.getD []) w₄.media w'.media m) := by
    refine (buildUploadResponse_ends media).mono (fun dto w' h => ?_) fun _ _ h => h.elim
    rw [h.1]
    exact hq dto h.2
  cases duplicate with
  | some existing =>
    obtain ⟨hm, ho⟩ := duplicate_owned h hkey.symm
    have hcanon : RowsCanonical env w₄ := fun k m hk => h.canonical k m (hcalm.rows ▸ hk)
    refine ProgE.Ends.bind ((mergeSharedWith_merges hcanon (hnodup _ _ hm)
      (hcalm.rows.symm ▸ hm) ho).mono (fun _ _ h => h) fun _ _ h => Or.inl h) fun _ w₅ h₅ => ?_
    obtain ⟨m', hmerged⟩ := h₅
    exact hanswer fun dto hdto => .merged existing m' rfl hdto hmerged
  | none =>
    refine ProgE.Ends.bind (storeNew_inserts.mono (fun _ _ h => h) fun _ _ h => Or.inl h)
      fun media w₅ h₅ => ?_
    obtain ⟨m, hid, hins⟩ := h₅
    refine ends_await_bind (v := ()) rfl ?_
    -- from here on the row is there, whatever fails
    refine ProgE.Ends.bind ((ends_rows (recordUpload_touches ownerId _) (by decide)).mono
      (fun _ _ h => h) fun _ w' h => ?_) fun _ w₆ h₆ => ?_
    · rw [h]
      exact Or.inr ⟨m, hins⟩
    · refine hanswer fun dto hdto => .inserted m rfl (hdto.trans hid) ?_
      rw [h₆]
      exact hins

theorem upload_acl (h : MediaStores env w)
    (hnodup : ∀ k m, w.media.get k = some m → m.acl.Nodup) :
    ProgE.Ends env.exec (upload env ownerId file context thumbnailFile sharedWith) w
      (fun dto w' => UploadAcl env ownerId (sharedWith.getD [])
        (duplicateOf env w ownerId (uploadKey env ownerId file context)) w.media dto w'.media)
      (fun _ w' => w'.media = w.media ∨
        ∃ m, Inserted env ownerId (sharedWith.getD []) w.media w'.media m) := by
  refine ends_calm_bind (faithful_exec env) (acquireSemaphore_touches ownerId) (by decide)
    (fun _ _ h => Or.inl h.rows) fun _ w₁ h₁ => ?_
  have hstores : MediaStores env w₁ := h.later (MediaLater.of_eq h₁.rows)
    (fun k m hk => h.canonical k m (h₁.rows ▸ hk)) fun key id hid => h₁.dedup ▸ hid
  refine ProgE.Ends.ensuring (uploadHeld_acl hstores fun k m hk => hnodup k m (h₁.rows ▸ hk))
    (fun dto w' h' => ?_) fun e w' h' => ?_
  · rw [duplicateOf_calm h₁, h₁.rows] at h'
    refine releaseSemaphore_ends.mono (fun _ w'' hr => ?_) fun _ _ h => h.elim
    rw [hr.rows]
    exact h'
  · rw [h₁.rows] at h'
    refine releaseSemaphore_ends.mono (fun _ w'' hr => ?_) fun _ _ h => h.elim
    rw [hr.rows]
    exact h'

end Writers

/-! Calls -/

/-- The call comes to unite its users with the ACL of this row. -/
def Call.Merges (env : Env) (w : World) : Call → Media → Prop
  | .share i requesterId _, m => env.uuidIn i = some m.id ∧ w.media.get m.id = some m ∧
      m.isActive = true ∧ m.ownerId = requesterId
  | .upload ownerId file context _ _, m => PassesChecks env w ownerId file context ∧
      duplicateOf env w ownerId (uploadKey env ownerId file context) = some m
  | _, _ => False

/-- The call comes to insert a row for this owner. -/
def Call.Inserts (env : Env) (w : World) : Call → String → Prop
  | .upload ownerId file context thumbnailFile _, o => o = ownerId ∧
      PassesChecks env w ownerId file context ∧
      duplicateOf env w ownerId (uploadKey env ownerId file context) = none ∧
      ∀ thumbnail ∈ thumbnailFile, validateThumbnail thumbnail = .ok ()
  | _, _ => False

/-- What a share or an upload has done to the ACLs. -/
inductive AclDone (env : Env) (w : World) (x : Call) : Except Err Reply → World → Prop
  | kept {out w'} (unlisted : ∀ k, listsFor env k x out = []) (media : w'.media = w.media) :
      AclDone env w x out w'
  | merged {out w'} (m m' : Media) (row : w.media.get m.id = some m) (merges : x.Merges env w m)
      (listed : ∀ k, listsFor env k x out = if m.id = k then x.listed else [])
      (merged : Merged env m x.listed w.media w'.media m') : AclDone env w x out w'
  | inserted {out w'} (m : Media) (ownerText : String) (inserts : x.Inserts env w ownerText)
      (listed : ∀ k, listsFor env k x out = if m.id = k then x.listed else [])
      (inserted : Inserted env ownerText x.listed w.media w'.media m) : AclDone env w x out w'

section Calls
variable {env : Env} {w : World}

theorem share_done (h : MediaStores env w)
    (hnodup : ∀ k m, w.media.get k = some m → m.acl.Nodup) (i requesterId : String)
    (uids : List String) :
    AclDone env w (.share i requesterId uids)
      ((service env).serve (.share i requesterId uids) w).result
      ((service env).serve (.share i requesterId uids) w).world := by
  have hends : ProgE.Ends env.exec (handle env (.share i requesterId uids)) w
      (fun rep w' => ∃ m m', env.uuidIn i = some m.id ∧ w.media.get m.id = some m ∧
        m.isActive = true ∧ m.ownerId = requesterId ∧ Merged env m uids w.media w'.media m')
      (fun _ w' => w'.media = w.media) := (share_merges h.canonical hnodup).map fun _ _ h => h
  cases hr : ((service env).serve (.share i requesterId uids) w).result with
  | error e => exact .kept (fun _ => rfl) (hends.of_error hr)
  | ok rep =>
    obtain ⟨m, m', hi, hm, hact, ho, hmerged⟩ := hends.of_ok hr
    refine .merged m m' hm ⟨hi, hm, hact, ho⟩ (fun k => ?_) hmerged
    show (if env.uuidIn i = some k then uids else []) = _
    simp only [hi, Option.some.injEq, Call.listed]

theorem upload_done (h : MediaStores env w)
    (hnodup : ∀ k m, w.media.get k = some m → m.acl.Nodup) (hentries : EntryRows env w)
    (ownerId : String) (file : File) (context : MediaContext) (thumbnailFile : Option File)
    (sharedWith : Option (List String)) :
    AclDone env w (.upload ownerId file context thumbnailFile sharedWith)
      ((service env).serve (.upload ownerId file context thumbnailFile sharedWith) w).result
      ((service env).serve (.upload ownerId file context thumbnailFile sharedWith) w).world := by
  have hends : ProgE.Ends env.exec
      (handle env (.upload ownerId file context thumbnailFile sharedWith)) w
      (fun rep w' => ∃ dto, rep = Reply.uploaded dto ∧ UploadAcl env ownerId (sharedWith.getD [])
        (duplicateOf env w ownerId (uploadKey env ownerId file context)) w.media dto w'.media)
      (fun _ w' => w'.media = w.media ∨
        ∃ m, Inserted env ownerId (sharedWith.getD []) w.media w'.media m) :=
    (upload_acl h hnodup).map fun dto _ h => ⟨dto, rfl, h⟩
  cases hr : ((service env).serve (.upload ownerId file context thumbnailFile sharedWith) w).result with
  | ok rep =>
    obtain ⟨dto, rfl, hacl⟩ := hends.of_ok hr
    have hok := upload_of_serve hr
    have hchecks := passesChecks_of_ok hok
    cases hacl with
    | merged m m' found answer merged =>
      refine .merged m m' (duplicate_owned h found).1 ⟨hchecks, found⟩ (fun k => ?_) merged
      simp only [listsFor, answer, Call.listed]
    | inserted m missed answer inserted =>
      refine .inserted m ownerId ⟨rfl, hchecks, missed, validateThumbnail_of_ok missed hok⟩
        (fun k => ?_) inserted
      simp only [listsFor, answer, Call.listed]
  | error e =>
    refine .kept (fun _ => rfl) ((hends.of_error hr).resolve_right ?_)
    rintro ⟨m, inserted⟩
    -- an upload that fails after its INSERT has found no quota row
    obtain ⟨r, hdone, hresult⟩ := serve_upload ownerId file context thumbnailFile sharedWith w
    have hrow : ((service env).serve (.upload ownerId file context thumbnailFile sharedWith)
        w).world.media.get m.id = some m := by
      have hget := get_insertMedia (w := w) (k := m.id) inserted.fresh
      rw [if_pos rfl] at hget
      exact inserted.rows.symm ▸ hget
    generalize ((service env).serve (.upload ownerId file context thumbnailFile sharedWith) w).world =
      w' at *
    cases hdone with
    | refused kept =>
      have hcore := kept.media m.id
      rw [hrow, inserted.fresh] at hcore
      cases hcore
    | orphaned left =>
      rw [left.media, inserted.fresh] at hrow
      cases hrow
    | uncharged m₁ stored quotas missing cached =>
      have hsome := hentries ownerId m₁.ownerId stored.row.owner cached
      rw [missing] at hsome
      cases hsome
    | reused m₁ found kept answer =>
      rw [hr] at hresult
      cases hresult
    | stored m₁ missed stored charged answer =>
      rw [hr] at hresult
      cases hresult

end Calls

end WhisprMedia
