import WhisprMedia.DedupEntries
import WhisprMedia.WriteBacks
import Mathlib.Algebra.Order.PUnit

/-! The ACL of a media under concurrent grants. A share and a dedup hit read the ACL, unite it
with the listed users and write it back; nothing is lost as long as no other write comes in between,
and no upload is misled by the length of an ACL with repeated users. -/
namespace WhisprMedia
open Awaiting Keyed MediaService QuotaService

/-! What is granted -/

/-- The users that a share or an upload lists. -/
def Call.listed : Call → List String
  | .share _ _ uids => uids
  | .upload _ _ _ _ sharedWith => sharedWith.getD []
  | _ => []

/-- The users that a returned call has listed for a media. -/
def listsFor (env : Env) (id : String) : Call → Except Err Reply → List String
  | .share i _ uids, .ok _ => if env.uuidIn i = some id then uids else []
  | .upload _ _ _ _ sharedWith, .ok (.uploaded dto) =>
    if dto.media_id = id then sharedWith.getD [] else []
  | _, _ => []

/-- The user is the owner of the media, or its stored ACL contains him. -/
def GrantStored (env : Env) (id uid : String) (w : World) : Prop :=
  ∃ m v, w.media.get id = some m ∧ env.uuidIn uid = some v ∧ (v = m.ownerId ∨ v ∈ m.acl)

/-- Rows stay, and no user leaves the ACL of the media. -/
structure AclLater (id : String) (w w' : World) : Prop where
  media : MediaLater w w'
  acl : ∀ m m', w.media.get id = some m → w'.media.get id = some m' → ∀ v ∈ m.acl, v ∈ m'.acl

theorem AclLater.of_eq {id : String} {w w' : World} (h : w'.media = w.media) :
    AclLater id w w' := by
  refine ⟨MediaLater.of_eq h, fun m m' hm hm' v hv => ?_⟩
  rw [h, hm, Option.some.injEq] at hm'
  exact hm' ▸ hv

theorem AclLater.trans {id : String} {w w' w'' : World} (h : AclLater id w w')
    (h' : AclLater id w' w'') : AclLater id w w'' := by
  refine ⟨h.media.trans h'.media, fun m m'' hm hm'' v hv => ?_⟩
  obtain ⟨m', hm', -⟩ := h.media id m hm
  exact h'.acl m' m'' hm' hm'' v (h.acl m m' hm hm' v hv)

theorem GrantStored.later {env : Env} {id uid : String} {w w' : World}
    (h : GrantStored env id uid w) (hl : AclLater id w w') : GrantStored env id uid w' := by
  obtain ⟨m, v, hm, hv, hmem⟩ := h
  obtain ⟨m', hm', hb⟩ := hl.media id m hm
  refine ⟨m', v, hm', hv, ?_⟩
  rcases hmem with rfl | hmem
  · exact Or.inl hb.ownerId_eq.symm
  · exact Or.inr (hl.acl m m' hm hm' v hmem)

/-! What the steps have to respect -/

/-- The user, the id and the new ACL of an UPDATE of `shared_with`. -/
def Cmd.aclUpdate? : Cmd → Option (String × String × Option (List String))
  | .updateSharedWith user id sharedWith => some (user, id, sharedWith)
  | _ => none

/-- The id of a lookup. -/
def Cmd.lookedUp? : Cmd → Option String
  | .findMedia _ id => some id
  | _ => none

/-- The owner's write of the ACL keeps every user that is stored at that moment. -/
def KeepsUsers (env : Env) (id : String) (w : World) (c : Cmd) : Prop :=
  ∀ a ∈ c.aclUpdate?, env.uuidIn a.2.1 = some id → ∀ s ∈ env.uuidArrayIn a.2.2,
    ∀ m ∈ w.media.get id, env.uuidIn a.1 = some m.ownerId → ∀ v ∈ m.acl, v ∈ s.getD []

/-- The users an upload lists. -/
def Call.uploadLists : Call → List String
  | .upload _ _ _ _ sharedWith => sharedWith.getD []
  | _ => []

/-- The users listed by an upload that the ACL does not hold yet. -/
def Call.missing (x : Call) (m : Media) : Finset String :=
  (otherUsers m.ownerId x.uploadLists).toFinset \ m.acl.toFinset

/-- How many places of the ACL repeat a user. -/
def Media.repeated (m : Media) : ℕ := m.acl.length - m.acl.toFinset.card

/-- An upload that finds the media does not list as many missing users as the ACL repeats, unless
none is missing. -/
def LengthTells (env : Env) (id : String) (w : World) (x : Call) (c : Cmd) : Prop :=
  ∀ i ∈ c.lookedUp?, env.uuidIn i = some id → ∀ m ∈ w.media.get id, m.isActive = true →
    (x.missing m).card = m.repeated → x.missing m = ∅

instance (env : Env) (id : String) (w : World) (x : Call) (c : Cmd) :
    Decidable (LengthTells env id w x c) :=
  inferInstanceAs (Decidable (∀ i ∈ c.lookedUp?, _))

/-- Then the length of the union tells whether a user is missing. -/
theorem missing_of_length {x : Call} {m : Media}
    (h : (x.missing m).card = m.repeated → x.missing m = ∅)
    (hlen : (mergeUsers m.ownerId m.sharedWith x.uploadLists).length = m.acl.length) :
    ∀ uid ∈ otherUsers m.ownerId x.uploadLists, uid ∈ m.acl := by
  have hcard : m.acl.toFinset.card + (x.missing m).card = m.acl.length := by
    rw [← hlen, length_mergeUsers, Call.missing, Finset.card_union, Finset.card_sdiff]
    have hle := Finset.card_le_card (Finset.inter_subset_right :
      m.acl.toFinset ∩ (otherUsers m.ownerId x.uploadLists).toFinset ⊆ _)
    omega
  have hnone := Finset.sdiff_eq_empty_iff_subset.mp (h (by unfold Media.repeated; omega))
  exact fun uid huid => List.mem_toFinset.mp (hnone (List.mem_toFinset.mpr huid))

/-- The account of a request is the call itself. -/
def aclDiscipline (env : Env) (id : String) : Discipline (service env) Call Unit where
  start x := x
  next x _ _ := x
  value _ := ()
  inv w _ := MediaStores env w
  rely w _ w' _ := AclLater id w w'
  may w _ x c := KeepsUsers env id w c ∧ LengthTells env id w x c
  rely_refl _ _ := AclLater.of_eq rfl
  rely_trans h h' := h.trans h'

section Commands
variable {env : Env} {id : String} {c : Cmd} {w w' : World} {x : Call} {m : Unit}

theorem aclLater_exec (h : KeepsUsers env id w c) : AclLater id w (env.exec c w).2 := by
  refine ⟨mediaLater_exec, fun m m' hm hm' v hv => ?_⟩
  rcases sharedWith_exec hm hm' with hs | ⟨user, i, l, rfl, hu, hi, hs⟩
  · rwa [Media.acl, hs]
  · exact h (user, i, l) rfl hi m'.sharedWith (by simp [hs]) m (by simp [hm]) hu v hv

/-- Only the dedup entry of an upload needs an argument of its own. -/
theorem acl_neutral (hc : ∀ key i ttl, c ≠ .setDedup key i ttl) :
    (aclDiscipline env id).Neutral x c :=
  fun _ _ hi hm => ⟨rfl, mediaStores_exec hi hc, aclLater_exec hm.1⟩

theorem acl_neutrals {F : List Family} (hF : Family.dedup ∉ F) :
    ∀ c : Cmd, c.family ∈ F → (aclDiscipline env id).Neutral x c := by
  intro c hc
  refine acl_neutral ?_
  rintro key i ttl rfl
  exact hF hc

/-- A row that was looked up, as it is now. -/
def StillThere (id : String) (media : Media) (w : World) : Prop :=
  ∃ m, w.media.get media.id = some m ∧ media.Becomes m ∧
    (media.id = id → ∀ v ∈ media.acl, v ∈ m.acl)

theorem StillThere.later {media : Media} (h : StillThere id media w) (hl : AclLater id w w') :
    StillThere id media w' := by
  obtain ⟨m, hm, hb, hacl⟩ := h
  obtain ⟨m', hm', hb'⟩ := hl.media _ m hm
  refine ⟨m', hm', hb.trans hb', ?_⟩
  rintro rfl v hv
  exact hl.acl m m' hm hm' v (hacl rfl v hv)

/-- What a lookup in between has found. -/
theorem stillThere_of_answered {user i : String} {media : Media} {m' : Unit}
    (h : Answered (aclDiscipline env id) x (.findMedia user i) (.ok (some media)) w m w' m') :
    StillThere id media w' ∧ media.Canonical env ∧ env.uuidIn i = some media.id ∧
      (media.id = id → (mergeUsers media.ownerId media.sharedWith x.uploadLists).length =
        media.acl.length → ∀ uid ∈ otherUsers media.ownerId x.uploadLists, uid ∈ media.acl) := by
  obtain ⟨w₀, u, m₀, -, hi₀, hm₀, he, -, -, hl⟩ := h.answered
  obtain ⟨rfl, v, -, hid, hget, hactive, -⟩ := exec_findMedia he rfl
  have hthere : StillThere id media u := ⟨media, hget, Media.Becomes.refl media, fun _ _ h => h⟩
  refine ⟨hthere.later hl, hi₀.canonical _ _ hget, hid, ?_⟩
  rintro rfl hlen
  exact missing_of_length (hm₀.2 i rfl hid media (by simp [hget]) hactive) hlen

/-- After the owner's write, every user in the list is in the ACL. -/
theorem listed_of_update {user i : String} {media : Media} {l : Option (List String)} {u : World}
    (he : env.exec (.updateSharedWith user i l) w = (.ok (), u)) (hlives : LivesOn media w)
    (hi : env.uuidIn i = some media.id) (ho : env.uuidIn user = some media.ownerId) :
    ∃ r, u.media.get media.id = some r ∧ ∀ uid ∈ l.getD [], ∃ v ∈ r.acl, env.uuidIn uid = some v := by
  obtain ⟨s, hs, hupd⟩ := exec_updateSharedWith he
  obtain ⟨m, hm, hb⟩ := hlives
  have hid : m.id = media.id := hb.id_eq
  have hrow := hupd m (hid ▸ hi) (hid ▸ hm) (hb.ownerId_eq ▸ ho)
  exact ⟨{ m with sharedWith := s }, hid ▸ hrow, (mem_uuidArrayIn hs).2⟩

/-- After the owner's write, every user in the list is stored. -/
theorem grants_of_update {user i : String} {media : Media} {l : Option (List String)} {m' : Unit}
    (hs : StillThere id media w) (hi : env.uuidIn i = some media.id)
    (ho : env.uuidIn user = some media.ownerId)
    (h : Answered (aclDiscipline env id) x (.updateSharedWith user i l) (.ok ()) w m w' m')
    (hid : media.id = id) : ∀ uid ∈ l.getD [], GrantStored env id uid w' := by
  obtain ⟨w₀, u, m₀, hr₀, -, -, he, -, -, hl⟩ := h.answered
  obtain ⟨m₁, hm₁, hb, -⟩ := hs.later hr₀
  obtain ⟨r, hr, hlisted⟩ := listed_of_update he ⟨m₁, hm₁, hb⟩ hi ho
  intro uid huid
  obtain ⟨v, hv, huv⟩ := hlisted uid huid
  have hstored : GrantStored env id uid u := ⟨r, v, hid ▸ hr, huv, Or.inr hv⟩
  exact hstored.later hl

/-- A user who is stored under his own spelling, or who is the owner. -/
theorem grants_of_member {media : Media} {uid : String} (hs : StillThere id media w)
    (hc : media.Canonical env) (hid : media.id = id) (hu : uid = media.ownerId ∨ uid ∈ media.acl) :
    GrantStored env id uid w := by
  obtain ⟨m, hm, hb, hacl⟩ := hs
  rcases hu with rfl | hu
  · exact ⟨m, media.ownerId, hid ▸ hm, hc.ownerId, Or.inl hb.ownerId_eq.symm⟩
  · exact ⟨m, uid, hid ▸ hm, hc.acl uid hu, Or.inr (hacl hid uid hu)⟩

end Commands

section Bodies
variable {env : Env} {id : String} {w w' : World} {x : Call} {m : Unit}

/-- The users are stored for the media, if it is this one. -/
abbrev Grants {α : Type} (env : Env) (id i : String) (uids : List String) :
    α → Call → World → Unit → Prop :=
  fun _ _ w _ => i = id → ∀ uid ∈ uids, uid ≠ "" → GrantStored env id uid w

abbrev Any {α : Type} : α → Call → World → Unit → Prop := fun _ _ _ _ => True

/-- The branches of a merge: a write of the union, or nothing to add. -/
theorem mergeWrite_keeps {user i : String} {media : Media} {l : Option (List String)}
    (uids : List String) (hs : StillThere id media w) (hc : media.Canonical env)
    (hi : env.uuidIn i = some media.id) (ho : env.uuidIn user = some media.ownerId)
    (hl : ∀ uid ∈ otherUsers media.ownerId uids, uid ∈ l.getD []) :
    (aclDiscipline env id).Keeps (await (.updateSharedWith user i l)) x w m
      (Grants env id media.id uids) Any := by
  refine (keeps_await_neutral (acl_neutral (by simp))).mono (fun _ g' w₁ m₁ hi₁ h => ?_)
    fun _ _ _ _ _ _ => trivial
  obtain ⟨rfl, ha⟩ := h
  intro hid uid huid hne
  by_cases howner : uid = media.ownerId
  · exact grants_of_member (hs.later ha.rely) hc hid (Or.inl howner)
  · exact grants_of_update hs hi ho ha hid uid (hl uid (mem_otherUsers.mpr ⟨huid, hne, howner⟩))

theorem grants_of_unchanged {media : Media} {uids : List String} (hs : StillThere id media w)
    (hc : media.Canonical env)
    (hsub : media.id = id → ∀ uid ∈ otherUsers media.ownerId uids, uid ∈ media.acl)
    {α : Type} (a : α) : (aclDiscipline env id).Stays (Grants env id media.id uids a x) w m := by
  intro u n hr _ hid uid huid hne
  refine grants_of_member (hs.later hr) hc hid ?_
  by_cases howner : uid = media.ownerId
  · exact Or.inl howner
  · exact Or.inr (hsub hid uid (mem_otherUsers.mpr ⟨huid, hne, howner⟩))

theorem share_keeps (i requesterId : String) (uids : List String) :
    (aclDiscipline env id).Keeps (share i requesterId uids) x w m
      (fun _ _ w' _ => env.uuidIn i = some id → ∀ uid ∈ uids, uid ≠ "" → GrantStored env id uid w')
      Any := by
  refine Discipline.Keeps.bind ((findActive_keeps (acl_neutral (by simp))).mono
    (fun _ _ _ _ _ h => h) fun _ _ _ _ _ _ => trivial) fun media g' w₁ m₁ hi₁ h => ?_
  obtain ⟨rfl, ha⟩ := h.now hi₁
  obtain ⟨hs, hc, hid, -⟩ := stillThere_of_answered ha
  refine keeps_sync_bind (fun _ _ _ _ _ _ => trivial) fun _ howner => ?_
  have ho := enforceOwner_eq_ok.mp howner
  have hmine : env.uuidIn requesterId = some media.ownerId := ho ▸ hc.ownerId
  have hsame : env.uuidIn i = some id → media.id = id := fun h => Option.some.inj (hid.symm.trans h)
  dsimp only
  split
  · next hlen =>
    refine Discipline.keeps_pure fun u n hr hi hthis => ?_
    refine grants_of_unchanged (x := g') hs hc (fun _ uid huid => ?_) () u n hr hi (hsame hthis)
    exact mem_newSet.mp (subset_of_length_foldl hlen uid huid)
  · refine Discipline.Keeps.bind (mergeWrite_keeps uids hs hc hid hmine fun uid huid =>
      mem_written (Or.inr huid)) fun _ g' w₂ m₂ _ hq => ?_
    refine keeps_after_touch (F := [.metadata]) (touches_await (by simp [Cmd.family]))
      (acl_neutrals (by decide)) (fun _ _ _ _ _ => trivial) fun _ w₃ m₃ hr₃ _ => ?_
    refine Discipline.keeps_pure fun u n hr hi hthis => ?_
    exact hq u n (hr₃.trans hr) hi (hsame hthis)

/-- A dedup hit unites the ACLs. -/
theorem mergeSharedWith_keeps {ownerId : String} {existing : Media}
    {sharedWith : Option (List String)} (hs : StillThere id existing w)
    (hc : existing.Canonical env) (ho : env.uuidIn ownerId = some existing.ownerId)
    (hlen : existing.id = id →
      (mergeUsers existing.ownerId existing.sharedWith (sharedWith.getD [])).length =
        existing.acl.length →
      ∀ uid ∈ otherUsers existing.ownerId (sharedWith.getD []), uid ∈ existing.acl) :
    (aclDiscipline env id).Keeps (mergeSharedWith ownerId existing sharedWith) x w m
      (Grants env id existing.id (sharedWith.getD [])) Any := by
  unfold mergeSharedWith
  dsimp only
  split
  · refine Discipline.Keeps.bind (mergeWrite_keeps (sharedWith.getD []) hs hc hc.id ho fun uid huid => ?_)
      fun _ g' w₂ m₂ _ hq => ?_
    · exact mem_mergeUsers.mpr (Or.inr huid)
    · refine keeps_of_touch (F := [.metadata]) (touches_await (by simp [Cmd.family]))
        (acl_neutrals (by decide)) (fun _ => hq) fun _ _ _ _ _ => trivial
  · next hno =>
    refine Discipline.keeps_pure (grants_of_unchanged hs hc (fun hid uid huid => ?_) ())
    -- nothing is listed, or the lengths agree
    by_cases hempty : (sharedWith.getD []).isEmpty = true
    · simp [List.isEmpty_iff.mp hempty, otherUsers] at huid
    · refine hlen hid ?_ uid huid
      by_contra hne
      exact hno (by simpa [hempty, Media.acl] using hne)

/-- The row of a new upload holds every user that the upload lists. -/
theorem saveNew_keeps {ownerId : String} {media : Media} {sharedWith : Option (List String)}
    (hid : env.uuidIn media.id = some media.id)
    (hacl : media.sharedWith = initialSharedWith ownerId sharedWith) :
    (aclDiscipline env id).Keeps (saveMedia ownerId media) x w m
      (fun _ _ w' _ => (∃ r, w'.media.get media.id = some r ∧ env.uuidIn ownerId = some r.ownerId) ∧
        (media.id = id → ∀ uid ∈ sharedWith.getD [], uid ≠ "" → GrantStored env id uid w'))
      Any := by
  refine saveMedia_of_insert (fun _ c hc => acl_neutrals (F := [.bucket]) (by decide) c (by simp [hc]))
    ((keeps_await_neutral (acl_neutral (by simp))).mono (fun _ g' w₁ m₁ hi₁ h => ?_)
      fun _ _ _ _ _ _ => trivial)
  obtain ⟨rfl, ha⟩ := h
  obtain ⟨w₀, u, m₀, -, -, -, he, -, -, hl⟩ := ha.answered
  rcases exec_saveMedia he with ⟨r, -, hin, howner, hn, rfl⟩ | ⟨e, he, -⟩
  · obtain ⟨hid', -, hs, -⟩ := mediaIn_eq hin
    have hrid : r.id = media.id := Option.some.inj (hid'.symm.trans hid)
    have hget : (w₀.media.insert r).get media.id = some r := by
      rw [get_insertMedia hn, if_pos hrid.symm]
    constructor
    · obtain ⟨r', hr', hb⟩ := hl.media media.id r hget
      exact ⟨r', hr', hb.ownerId_eq ▸ howner⟩
    · rintro rfl uid huid hne
      have hstored : GrantStored env media.id uid { w₀ with media := w₀.media.insert r } := by
        by_cases hown : uid = ownerId
        · exact ⟨r, r.ownerId, hget, hown ▸ howner, Or.inl rfl⟩
        · rw [hacl] at hs
          obtain ⟨v, hv, huv⟩ := (mem_uuidArrayIn hs).2 uid
            (mem_initialSharedWith.mpr (mem_otherUsers.mpr ⟨huid, hne, hown⟩))
          exact ⟨r, v, hget, huv, Or.inr hv⟩
      exact hstored.later hl
  · exact absurd he (by simp)

theorem storeNew_keeps (ownerId : String) (file : File) (context : MediaContext)
    (thumbnailFile : Option File) (sharedWith : Option (List String)) :
    (aclDiscipline env id).Keeps (storeNew env ownerId file context thumbnailFile sharedWith) x w m
      (fun media _ w' _ =>
        (∃ r, w'.media.get media.id = some r ∧ env.uuidIn ownerId = some r.ownerId) ∧
        (media.id = id → ∀ uid ∈ sharedWith.getD [], uid ≠ "" → GrantStored env id uid w'))
      Any := by
  refine storeNew_of_saveMedia (acl_neutrals (by decide)) (fun _ _ _ _ => trivial)
    fun media w' m' _ hmedia => ?_
  exact saveNew_keeps hmedia.uuid hmedia.acl

theorem setDedup_keeps {ownerId i : String} {context : MediaContext} {digest : List (Fin 16)}
    {ttl : Nat} (hrow : (aclDiscipline env id).Stays (fun w' _ => ∃ r,
      w'.media.get i = some r ∧ env.uuidIn ownerId = some r.ownerId) w m) :
    (aclDiscipline env id).Keeps (await (.setDedup (dedupKey ownerId context digest) i ttl)) x w m
      (fun _ _ w' _ => AclLater id w w') Any := by
  refine keeps_await fun w' f r u hr hi _ he => ?_
  obtain ⟨row, hget, ho⟩ := hrow w' _ hr hi
  have hinv := @mediaStores_setDedup env w' hi ownerId i context digest ttl row hget ho
  have hlater : AclLater id w' u := by
    obtain ⟨rfl, rfl⟩ := Prod.mk.inj he
    exact AclLater.of_eq rfl
  rw [he] at hinv
  refine ⟨hinv, hlater, fun u' n hu _ => ?_⟩
  obtain ⟨rfl, -⟩ := Prod.mk.inj he
  exact (hr.trans hlater).trans hu

theorem uploadHeld_keeps (ownerId : String) (file : File) (context : MediaContext)
    (thumbnailFile : Option File) (sharedWith : Option (List String))
    (hx : x.uploadLists = sharedWith.getD []) :
    (aclDiscipline env id).Keeps (uploadHeld env ownerId file context thumbnailFile sharedWith) x
      w m (fun dto g' w' m' => Grants env id dto.media_id (sharedWith.getD []) dto g' w' m')
      Any := by
  refine uploadHeld_of_checked (acl_neutrals (by decide)) (fun _ _ _ _ => trivial)
    fun w₃ m₃ _ _ => ?_
  refine Discipline.Keeps.bind ((findDuplicate_keeps (acl_neutral (by simp))
    fun _ => acl_neutral (by simp)).mono (fun _ _ _ _ _ h => h) fun _ _ _ _ _ _ => trivial)
    fun duplicate g' w₄ m₄ hi₄ h => ?_
  obtain ⟨rfl, -, hfound⟩ := h.now hi₄
  have hresponse {y : Call} {w : World} {m : Unit} {media : Media}
      (hq : (aclDiscipline env id).Stays (Grants env id media.id (sharedWith.getD []) () y) w m) :
      (aclDiscipline env id).Keeps (buildUploadResponse env media) y w m
        (fun dto g' w' m' => Grants env id dto.media_id (sharedWith.getD []) dto g' w' m') Any := by
    refine (buildUploadResponse_keeps fun c hc => acl_neutrals (F := [.outside]) (by decide) c
      (by simp [hc])).mono (fun dto g₁ w₁ m₁ hi₁ h => ?_) fun _ _ _ _ _ _ => trivial
    obtain ⟨-, hr, hdto, -⟩ := h
    intro hid
    exact hq w₁ m₁ hr hi₁ (hdto ▸ hid)
  cases duplicate with
  | some existing =>
    obtain ⟨i, w', m', hget, hfind⟩ := hfound existing rfl
    obtain ⟨hs, hc, hid, hlen⟩ := stillThere_of_answered hfind
    have howner : env.uuidIn ownerId = some existing.ownerId := by
      obtain ⟨w₀, u, m₀, -, hi₀, -, he, -, -, hl⟩ := hget.answered
      obtain ⟨hr, rfl⟩ := Prod.mk.inj he
      obtain ⟨now, hnow, hb, -⟩ := hs
      exact owner_of_entry hi₀ (Except.ok.inj hr) hid (hl.media.trans hfind.rely.media) ⟨now, hnow, hb⟩
    refine Discipline.Keeps.bind (mergeSharedWith_keeps hs hc howner (hx ▸ hlen))
      fun _ g₁ w₅ m₅ _ hq => ?_
    exact hresponse hq
  | none =>
    refine Discipline.Keeps.bind (storeNew_keeps ownerId file context thumbnailFile sharedWith)
      fun media g₁ w₅ m₅ hi₅ h₅ => ?_
    refine Discipline.Keeps.bind (setDedup_keeps fun u n hr hi => (h₅ u n hr hi).1)
      fun _ g₂ w₆ m₆ hi₆ h₆ => ?_
    have hq₆ : (aclDiscipline env id).Stays
        (Grants env id media.id (sharedWith.getD []) () g₂) w₆ m₆ :=
      fun u n hr hi => (h₅ u n (h₆ u n hr hi) hi).2
    refine keeps_after_touch (recordUpload_touches ownerId _) (acl_neutrals (by decide))
      (fun _ _ _ _ _ => trivial) fun _ w₇ m₇ hr₇ _ => ?_
    exact hresponse fun u n hr hi => hq₆ u n (hr₇.trans hr) hi

/-- What a returned call has granted. -/
def GrantsOf (env : Env) (id : String) (x : Call) (out : Except Err Reply) (_ : Call) (w : World)
    (_ : Unit) : Prop :=
  ∀ uid ∈ listsFor env id x out, uid ≠ "" → GrantStored env id uid w

theorem grantsOf_of_nil {out : Except Err Reply} {y : Call} (h : listsFor env id x out = []) :
    GrantsOf env id x out y w m := by
  intro uid huid
  rw [h] at huid
  exact absurd huid (List.not_mem_nil)

theorem handle_keeps_acl (x : Call) :
    (aclDiscipline env id).Keeps (handle env x) x w m (fun r => GrantsOf env id x (.ok r))
      (fun e => GrantsOf env id x (.error e)) := by
  have herr (e : Err) (y : Call) (w : World) (m : Unit) : GrantsOf env id x (.error e) y w m :=
    grantsOf_of_nil (by cases x <;> rfl)
  cases x with
  | upload ownerId file context thumbnailFile sharedWith =>
    refine Discipline.Keeps.mono (Discipline.Keeps.map (upload_of_held (E := fun _ _ _ => True)
      (fun g c hc => acl_neutrals (F := [.semaphore]) (by decide) c (by simp [hc]))
      (fun _ _ _ _ => trivial) (fun _ _ _ _ _ => trivial) fun w' m' _ _ =>
        uploadHeld_keeps ownerId file context thumbnailFile sharedWith rfl)
      fun dto y w' m' _ h => ?_) (fun _ _ _ _ _ h => h) fun e y w' m' _ _ => herr e y w' m'
    show ∀ uid ∈ (if dto.media_id = id then sharedWith.getD [] else []), _
    split
    · next hid => exact h hid
    · exact fun _ hu => absurd hu (List.not_mem_nil)
  | share i requesterId uids =>
    refine Discipline.Keeps.mono (Discipline.Keeps.map (share_keeps i requesterId uids)
      fun r y w' m' _ h => ?_) (fun _ _ _ _ _ h => h) fun e y w' m' _ _ => herr e y w' m'
    show ∀ uid ∈ (if env.uuidIn i = some id then uids else []), _
    split
    · next hid => exact h hid
    · exact fun _ hu => absurd hu (List.not_mem_nil)
  | _ =>
    refine keeps_of_touch (handle_touches env _ (by simp)) (acl_neutrals (by decide))
      (fun _ _ _ _ _ => ?_) fun e _ _ _ _ => herr e _ _ _
    exact grantsOf_of_nil rfl

end Bodies

/-! Runs -/

/-- The stored ACL of the media is the one that a request has found last. -/
def AclAsRead (id : String) (w : World) (log : ServiceLog) : Prop :=
  ∀ media ∈ lastMedia log, ∀ m ∈ w.media.get id, m.sharedWith = media.sharedWith

instance (id : String) (w : World) (log : ServiceLog) : Decidable (AclAsRead id w log) :=
  inferInstanceAs (Decidable (∀ media ∈ lastMedia log, _))

/-- An UPDATE of the ACL comes before any other one that follows the lookup of its request, and no
upload is misled by a length. -/
def AclAllowed (env : Env) (id : String) (p : ServicePool) : Label Call Act → Prop
  | .step i => ∀ t ∈ p.threads[i]?, ∀ c ∈ p.nextCmd i,
      (∀ a ∈ c.aclUpdate?, env.uuidIn a.2.1 = some id → AclAsRead id p.world t.log) ∧
        LengthTells env id p.world t.call c
  | _ => True

instance (env : Env) (id : String) (p : ServicePool) (l : Label Call Act) :
    Decidable (AclAllowed env id p l) :=
  match l with
  | .step i => inferInstanceAs (Decidable (∀ t ∈ p.threads[i]?, _))
  | .call _ | .act _ => inferInstanceAs (Decidable True)

/-- Such an UPDATE drops nobody. -/
def AclKept (env : Env) (id : String) (p : ServicePool) : Label Call Act → Prop
  | .step i => ∀ t ∈ p.threads[i]?, ∀ c ∈ p.nextCmd i,
      KeepsUsers env id p.world c ∧ LengthTells env id p.world t.call c
  | _ => True

/-- In a run, all rows are in the form in which Postgres prints them. -/
theorem canonical_of_runs {env : Env} {ok : ServicePool → Label Call Act → Prop} {w : World}
    {p : ServicePool} (hw : RowsCanonical env w) (h : (service env).Runs ok ⟨w, []⟩ p) :
    RowsCanonical env p.world := by
  induction h with
  | refl => exact hw
  | tail _ _ hn ih =>
    rcases System.next_cases hn with ⟨x, -, rfl⟩ | ⟨a, -, rfl⟩ | ⟨_, _, _, _, _, c, _, -, -, -, rfl⟩
    · exact ih
    · exact fun k r hr => ih k r (act_media a _ ▸ hr)
    · exact rowsCanonical_exec ih

/-- A request unites what it has found with the users it adds, so an ACL that is still as found loses
nobody. -/
theorem aclKept_of_allowed {env : Env} {id : String} {ok : ServicePool → Label Call Act → Prop}
    {w : World} {p : ServicePool} (hw : RowsCanonical env w) (h : (service env).Runs ok ⟨w, []⟩ p)
    {l : Label Call Act} (hl : AclAllowed env id p l) : AclKept env id p l := by
  cases l with
  | call _ | act _ => trivial
  | step i =>
    intro t ht c hc
    obtain ⟨hread, hlen⟩ := hl t ht c hc
    refine ⟨fun a ha hid s hs m hm _ v hv => ?_, hlen⟩
    obtain ⟨user, i', l⟩ := a
    obtain rfl : c = .updateSharedWith user i' l := by
      cases c <;> simp_all [Cmd.aclUpdate?]
    obtain ⟨media, hlast, hsub⟩ := (writesBack_of_runs h ht hc).acl _ _ _ rfl
    have hsame := hread _ ha hid media hlast m hm
    have hvl : v ∈ l.getD [] := hsub v (by rwa [Media.acl, ← hsame])
    obtain ⟨v', hv', huv⟩ := (mem_uuidArrayIn hs).2 v hvl
    have hcanon := (canonical_of_runs hw h id m hm).acl v hv
    exact Option.some.inj (hcanon.symm.trans huv) ▸ hv'

theorem acl_of_eq {env : Env} {id : String} (t : ServiceThread) :
    (aclDiscipline env id).of t = t.call := by
  suffices h : ∀ (log : List (Event Cmd Cmd.Reply)) (x : Call),
      log.foldl (fun x e => (aclDiscipline env id).next x e.1 e.2) x = x from h t.log t.call
  intro log
  induction log with
  | nil => exact fun _ => rfl
  | cons e log ih => exact ih

theorem acl_sound (env : Env) (id : String) :
    (aclDiscipline env id).Sound (GrantsOf env id) (AclKept env id) where
  call p x _ := ⟨rfl, fun w m _ => (handle_keeps_acl x).upholds.mono
    fun r _ _ _ _ h => by cases r <;> exact h⟩
  fork c x _ := ⟨rfl, fun w m _ => (handle_keeps_acl x).upholds.mono
    fun r _ _ _ _ h => by cases r <;> exact h⟩
  act p a m _ hi := ⟨mediaStores_act a hi, AclLater.of_eq (act_media a p.world)⟩
  step p i x log c k hok ht := by
    rw [acl_of_eq]
    exact hok _ (by simp [ht]) c (by simp [Pool.nextCmd, ht])

/-- If no other UPDATE of the ACL comes in between the lookup of a request and its UPDATE, and the
length of an ACL never misleads an upload, the users that a returned call has listed are stored,
whatever runs beside it. -/
theorem acl_complete (env : Env) (id : String) (p : ServicePool)
    (h : (service env).Runs (AclAllowed env id) ⟨World.empty, []⟩ p) (t : ServiceThread)
    (ht : t ∈ p.threads) (a : Except Err Reply) (ha : t.outcome = some a) (uid : String)
    (huid : uid ∈ listsFor env id t.call a) (hne : uid ≠ "") : GrantStored env id uid p.world := by
  have hstart : (aclDiscipline env id).inv World.empty 0 := mediaStores_empty env
  have hkept : (service env).Runs (AclKept env id) ⟨World.empty, []⟩ p :=
    h.strengthen fun q l hq hl => aclKept_of_allowed (mediaStores_empty env).canonical hq hl
  have hp := ((Discipline.holds_of_empty hstart).runs (acl_sound env id) hkept).1
  exact hp.outcome ht ha uid huid hne

/-- The upload that the shares below are about. -/
def sharedUpload : Call :=
  .upload (exampleId 7) ⟨"application/octet-stream", 1, some [0], none⟩ .MESSAGE none
    (some [exampleId 6])

/-- An upload that lists one user, and then a share with another one. -/
def uploadThenShare : List (Label Call Act) :=
  .call sharedUpload :: List.replicate 20 (.step 0) ++
    .call (.share (exampleId 1) (exampleId 7) [exampleId 8]) :: List.replicate 3 (.step 2)

theorem acl_complete_after_share : ∃ p, (service exampleEnv).play
    (AclAllowed exampleEnv (exampleId 1)) ⟨World.empty, []⟩ uploadThenShare = some p ∧
    GrantStored exampleEnv (exampleId 1) (exampleId 8) p.world := by
  have hplay : (((service exampleEnv).play (AclAllowed exampleEnv (exampleId 1))
      ⟨World.empty, []⟩ uploadThenShare).filter fun p => ∃ t ∈ p.threads, ∃ a ∈ t.outcome,
        exampleId 8 ∈ listsFor exampleEnv (exampleId 1) t.call a).isSome = true := by
    decide +kernel
  obtain ⟨p, hp⟩ := Option.isSome_iff_exists.mp hplay
  simp only [Option.filter_eq_some_iff, decide_eq_true_eq] at hp
  obtain ⟨hp, t, ht, a, ha, huid⟩ := hp
  exact ⟨p, hp, acl_complete exampleEnv (exampleId 1) p (System.runs_of_play hp) t ht a ha
    (exampleId 8) huid (by decide +kernel)⟩

/-! A share can overwrite another one -/

/-- Only uploads and shares of one user arrive. -/
def grantRequest (ownerId : String) : Label Call Act → Bool
  | .call (.upload o _ _ _ _) => o = ownerId
  | .call (.share _ requesterId _) => requesterId = ownerId
  | .call _ => false
  | _ => true

/-- Every request has returned, and none has failed. -/
def AllReturned (p : ServicePool) : Prop := ∀ t ∈ p.threads, t.outcome.any Except.isOk = true

instance (p : ServicePool) : Decidable (AllReturned p) :=
  inferInstanceAs (Decidable (∀ t ∈ p.threads, _))

/-- Two shares read the ACL, and then both write it. -/
def overlappingShares : List (Label Call Act) :=
  .call sharedUpload :: List.replicate 20 (.step 0) ++
    [.call (.share (exampleId 1) (exampleId 7) [exampleId 8]),
      .call (.share (exampleId 1) (exampleId 7) [exampleId 9]),
      .step 2, .step 3, .step 2, .step 3, .step 2, .step 3, .step 1, .step 1, .step 1]

instance (env : Env) (id uid : String) (w : World) : Decidable (GrantStored env id uid w) :=
  decidable_of_iff (∃ m ∈ w.media.get id, ∃ v ∈ env.uuidIn uid, v = m.ownerId ∨ v ∈ m.acl)
    (by simp [GrantStored])

/-- A user whom a returned share has listed can be missing. -/
theorem acl_not_complete :
    ¬ ∀ (env : Env) (id ownerId : String) (p : ServicePool),
      (service env).Runs (fun _ l => grantRequest ownerId l = true) ⟨World.empty, []⟩ p →
      AllReturned p → ∀ t ∈ p.threads, ∀ a, t.outcome = some a →
        ∀ uid ∈ listsFor env id t.call a, uid ≠ "" → GrantStored env id uid p.world := by
  intro hall
  have hplay : (((service exampleEnv).play (fun _ l => grantRequest (exampleId 7) l = true)
      ⟨World.empty, []⟩ overlappingShares).filter fun p => AllReturned p ∧
        ∃ t ∈ p.threads, ∃ a ∈ t.outcome, exampleId 8 ∈ listsFor exampleEnv (exampleId 1) t.call a ∧
          ¬ GrantStored exampleEnv (exampleId 1) (exampleId 8) p.world).isSome = true := by
    decide +kernel
  obtain ⟨p, hp⟩ := Option.isSome_iff_exists.mp hplay
  simp only [Option.filter_eq_some_iff, decide_eq_true_eq] at hp
  obtain ⟨hp, hall', t, ht, a, ha, huid, hlost⟩ := hp
  exact hlost (hall exampleEnv (exampleId 1) (exampleId 7) p (System.runs_of_play hp) hall' t ht a
    ha (exampleId 8) huid (by decide +kernel))

end WhisprMedia
