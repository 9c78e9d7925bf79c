import WhisprMedia.AclGrants
import Mathlib.Algebra.Order.Group.Multiset

/-! Who gets to see a private media. Every user in a stored or cached ACL has been listed by a
request of the owner that addressed the media, a key of the bucket belongs to one row, and every
path of the service hands out a private media after a check against one of these ACLs. -/
namespace WhisprMedia
open Awaiting Keyed MediaService QuotaService StorageService

/-! What a reply discloses -/

/-- The reply hands out metadata of the media, its bytes or a presigned URL. -/
def Reply.Discloses (m : Media) : Reply → Prop
  | .metadata dto => dto.id = m.id
  | .blobUrl dto => m.RefersTo dto.url.key
  | .thumbnailUrl dto => ∃ u ∈ dto.url, m.RefersTo u.key
  | .blob file => m.RefersTo file.stream.key
  | .thumbnail file => ∃ f ∈ file, m.RefersTo f.stream.key
  | .uploaded dto => dto.media_id = m.id ∨ (∃ u ∈ dto.url, m.RefersTo u.key) ∨
      ∃ u ∈ dto.thumbnail_url, m.RefersTo u.key
  | .userMedia dto => ∃ item ∈ dto.items, item.id = m.id
  | _ => False

/-- The user a call is made by. -/
def Call.requester? : Call → Option String
  | .upload ownerId _ _ _ _ => some ownerId
  | .share _ requesterId _ | .delete _ requesterId | .getMetadata _ requesterId
  | .getBlob _ requesterId | .getThumbnail _ requesterId | .streamBlob _ requesterId
  | .streamThumbnail _ requesterId => some requesterId
  | .getUserMedia userId _ _ => some userId
  | _ => none

/-- The media that a command has looked up or inserted. -/
def addressedBy (env : Env) : Event Cmd Cmd.Reply → Option String
  | ⟨.findMedia _ _, .ok (some (m : Media))⟩ => some m.id
  | ⟨.saveMedia _ media, .ok _⟩ => env.uuidIn media.id
  | _ => none

def addressed (env : Env) (t : ServiceThread) : List String := t.log.filterMap (addressedBy env)

/-- The request is the owner's, is about the media, and lists the user. -/
def OwnerListed (env : Env) (m : Media) (user : String) (t : ServiceThread) : Prop :=
  t.call.requester?.bind env.uuidIn = some m.ownerId ∧ m.id ∈ addressed env t ∧
    ∃ uid ∈ t.call.listed, env.uuidIn uid = some user

/-! The account of a request -/

/-- Who has granted, for which media, to whom. -/
abbrev Grant := Option String × String × String

/-- The call, and the media it has addressed so far; kept for calls that list users. -/
structure ListWork where
  call : Call
  ids : List String

namespace ListWork

def next (env : Env) (g : ListWork) (c : Cmd) (r : c.Reply) : ListWork :=
  if g.call.listed = [] then g else { g with ids := g.ids ++ (addressedBy env ⟨c, r⟩).toList }

theorem next_call {env : Env} {g : ListWork} {c : Cmd} {r : c.Reply} :
    (g.next env c r).call = g.call := by
  unfold next
  split <;> rfl

/-- A command that has addressed no media changes nothing. -/
theorem next_of_unaddressed {env : Env} {g : ListWork} {c : Cmd} {r : c.Reply}
    (h : g.call.listed ≠ [] → addressedBy env ⟨c, r⟩ = none) : g.next env c r = g := by
  unfold next
  split
  · rfl
  · next hlist =>
    rw [h hlist]
    simp

def users (env : Env) (g : ListWork) : List String := g.call.listed.filterMap env.uuidIn

def grants (env : Env) (g : ListWork) : List Grant :=
  g.ids.flatMap fun id => (g.users env).map fun v => (g.call.requester?.bind env.uuidIn, id, v)

theorem mem_grants {env : Env} {g : ListWork} {o : Option String} {id v : String} :
    (o, id, v) ∈ g.grants env ↔
      o = g.call.requester?.bind env.uuidIn ∧ id ∈ g.ids ∧ v ∈ g.users env := by
  simp only [grants, List.mem_flatMap, List.mem_map, Prod.mk.injEq]
  constructor
  · rintro ⟨k, hk, u, hu, ho, rfl, rfl⟩
    exact ⟨ho.symm, hk, hu⟩
  · rintro ⟨ho, hid, hv⟩
    exact ⟨id, hid, v, hv, ho.symm, rfl, rfl⟩

end ListWork

def listWork (env : Env) : Account Cmd Cmd.Reply Call ListWork (Multiset Grant) where
  start x := ⟨x, []⟩
  next := ListWork.next env
  value g := (g.grants env : Multiset Grant)

/-- Every user in an ACL, stored or cached, has been listed by the owner; every key of a row
carries the row's id. -/
structure ConfInv (env : Env) (w : World) (m : Multiset Grant) : Prop where
  stores : MediaStores env w
  granted : ∀ k r, w.media.get k = some r → ∀ v ∈ r.acl, (some r.ownerId, k, v) ∈ m
  paths : ∀ k r, w.media.get k = some r → ∀ key, r.RefersTo key → PathOf k key
  entries : ∀ key e, w.metaCache key = some e → ∃ r, w.media.get e.dto.id = some r ∧
    e.dto.ownerId = r.ownerId ∧ e.dto.context = r.context ∧
    ∀ v ∈ e.sharedWith.getD [], env.uuidIn v = some v ∧ (some r.ownerId, r.id, v) ∈ m

/-- Rows and grants stay. -/
structure ConfLater (w : World) (m : Multiset Grant) (w' : World) (m' : Multiset Grant) :
    Prop where
  media : MediaLater w w'
  grants : ∀ x ∈ m, x ∈ m'

theorem ConfLater.of_media {w w' : World} {m : Multiset Grant} (h : MediaLater w w') :
    ConfLater w m w' m :=
  ⟨h, fun _ hx => hx⟩

def confDiscipline (env : Env) : Discipline (service env) ListWork (Multiset Grant) where
  toAccount := listWork env
  inv := ConfInv env
  rely := ConfLater
  may _ _ _ _ := True
  rely_refl w _ := ConfLater.of_media (MediaLater.refl w)
  rely_trans h h' := ⟨h.media.trans h'.media, fun x hx => h'.grants x (h.grants x hx)⟩

section Commands
variable {env : Env} {c : Cmd} {w w' : World} {g : ListWork} {m m' : Multiset Grant}

theorem Media.Becomes.refersTo {r r' : Media} (h : r.Becomes r') {key : String}
    (ho : r'.RefersTo key) : r.RefersTo key := by
  rcases ho with ho | ho
  · exact Or.inl (h.storagePath_eq ▸ ho)
  · exact Or.inr (h.thumbnailPath_eq ▸ ho)

/-- Cached ACLs stay justified while rows and grants stay. -/
theorem ConfInv.entries_later (h : ConfInv env w m) (hl : ConfLater w m w' m')
    (he : ∀ key e, w'.metaCache key = some e → w.metaCache key = some e) :
    ∀ key e, w'.metaCache key = some e → ∃ r, w'.media.get e.dto.id = some r ∧
      e.dto.ownerId = r.ownerId ∧ e.dto.context = r.context ∧
      ∀ v ∈ e.sharedWith.getD [], env.uuidIn v = some v ∧ (some r.ownerId, r.id, v) ∈ m' := by
  intro key e hent
  obtain ⟨r, hr, ho, hctx, hacl⟩ := h.entries key e (he key e hent)
  obtain ⟨r', hr', hb⟩ := hl.media _ r hr
  refine ⟨r', hr', ho.trans hb.ownerId_eq.symm, hctx.trans hb.context_eq.symm, fun v hv => ?_⟩
  rw [hb.ownerId_eq, hb.id_eq]
  exact ⟨(hacl v hv).1, hl.grants _ (hacl v hv).2⟩

/-- The commands that store ids or ACLs. -/
def Cmd.storesAcl : Cmd → Bool
  | .saveMedia _ _ | .updateSharedWith _ _ _ | .setMeta _ _ _ | .setDedup _ _ _ => true
  | _ => false

/-- The families that have no such command. -/
def Family.storesAcl : Family → Bool
  | .mediaAcl | .mediaInsert | .metadata | .dedup => true
  | _ => false

/-- A command that neither inserts a row nor writes an ACL, and a larger account. -/
theorem confInv_exec (h : ConfInv env w m) (hi : c.family ≠ .mediaInsert)
    (ha : c.family ≠ .mediaAcl) (hd : ∀ key i ttl, c ≠ .setDedup key i ttl)
    (hs : ∀ key e ttl, c ≠ .setMeta key e ttl) (hm : ∀ x ∈ m, x ∈ m') :
    ConfInv env (env.exec c w).2 m' := by
  have hl : ConfLater w m (env.exec c w).2 m' := ⟨mediaLater_exec, hm⟩
  have hbefore (k : String) (r' : Media) (hr' : (env.exec c w).2.media.get k = some r') :
      ∃ r, w.media.get k = some r ∧ r.Becomes r' := by
    rcases media_before_exec hr' with hb | ⟨user, media, rfl, -⟩
    · exact hb
    · exact absurd rfl hi
  refine ⟨mediaStores_exec h.stores hd, fun k r' hr' v hv => ?_, fun k r' hr' key hkey => ?_,
    h.entries_later hl fun key e he => metaCache_before_exec hs he⟩
  · obtain ⟨r, hr, hb⟩ := hbefore k r' hr'
    rcases sharedWith_exec hr hr' with hsame | ⟨user, id, l, rfl, -⟩
    · rw [hb.ownerId_eq]
      refine hm _ (h.granted k r hr v ?_)
      rwa [Media.acl, ← hsame]
    · exact absurd rfl ha
  · obtain ⟨r, hr, hb⟩ := hbefore k r' hr'
    exact h.paths k r hr key (hb.refersTo hkey)

theorem conf_neutral (hc : c.storesAcl = false)
    (hg : c.family = .mediaLookup → g.call.listed = []) : (confDiscipline env).Neutral g c := by
  intro w f hi _
  refine ⟨?_, confInv_exec hi ?_ ?_ ?_ ?_ fun _ hx => hx, ConfLater.of_media mediaLater_exec⟩
  · apply ListWork.next_of_unaddressed
    intro hlist
    generalize ((service env).exec c w).1 = r
    cases c <;> first | rfl | exact absurd (hg rfl) hlist | exact absurd hc (by simp [Cmd.storesAcl])
  · cases c <;> simp_all [Cmd.storesAcl, Cmd.family]
  · cases c <;> simp_all [Cmd.storesAcl, Cmd.family]
  · rintro key i ttl rfl
    exact absurd hc (by simp [Cmd.storesAcl])
  · rintro key e ttl rfl
    exact absurd hc (by simp [Cmd.storesAcl])

theorem storesAcl_of_family {F : List Family} (hF : ∀ f ∈ F, f.storesAcl = false)
    (hc : c.family ∈ F) : c.storesAcl = false := by
  have h := hF _ hc
  cases c <;> first | rfl | exact absurd h (by simp [Cmd.family, Family.storesAcl])

theorem conf_neutrals {F : List Family} (hF : ∀ f ∈ F, f.storesAcl = false)
    (hg : .mediaLookup ∈ F → g.call.listed = []) :
    ∀ c : Cmd, c.family ∈ F → (confDiscipline env).Neutral g c :=
  fun _ hc => conf_neutral (storesAcl_of_family hF hc) fun h => hg (h ▸ hc)

end Commands

section Bodies
variable {env : Env} {w w' : World} {g : ListWork} {m m' : Multiset Grant} {user id : String}

abbrev Anything {α : Type} : α → ListWork → World → Multiset Grant → Prop := fun _ _ _ _ => True

/-- What is known of a row that was read: its ACL is the owner's doing. -/
structure Justified (env : Env) (media : Media) (w : World) (m : Multiset Grant) : Prop where
  canonical : media.Canonical env
  lives : LivesOn media w
  granted : ∀ v ∈ media.acl, (some media.ownerId, media.id, v) ∈ m

theorem Justified.later {media : Media} (h : Justified env media w m)
    (hl : ConfLater w m w' m') : Justified env media w' m' :=
  ⟨h.canonical, h.lives.later hl.media, fun v hv => hl.grants _ (h.granted v hv)⟩

theorem justified_of_row (hi : ConfInv env w m) {media : Media}
    (hget : w.media.get media.id = some media) : Justified env media w m :=
  ⟨hi.stores.canonical _ _ hget, ⟨media, hget, Media.Becomes.refl media⟩,
    hi.granted _ media hget⟩

theorem justified_of_answered {media : Media}
    (h : Answered (confDiscipline env) g (.findMedia user id) (.ok (some media)) w m w' m') :
    Justified env media w' m' ∧ env.uuidIn id = some media.id := by
  obtain ⟨w₀, u, m₀, -, hi₀, -, he, -, hr₁, hr₂⟩ := h.answered
  obtain ⟨rfl, v, -, hid, hget, -, -⟩ := exec_findMedia he rfl
  exact ⟨((justified_of_row hi₀ hget).later hr₁).later hr₂, hid⟩

/-- A grown account is part of the total. -/
theorem grants_mem {f n : Multiset Grant} {u u' : World}
    (h : ConfLater u ((listWork env).value g + f) u' n) :
    ∀ x ∈ g.grants env, x ∈ n :=
  fun x hx => h.grants x (Multiset.mem_add.mpr (Or.inl (by simpa [listWork] using hx)))

theorem grants_subset_next {c : Cmd} {r : c.Reply} :
    ∀ x ∈ g.grants env, x ∈ (g.next env c r).grants env := by
  rintro ⟨o, i, v⟩ hx
  obtain ⟨ho, hi, hv⟩ := ListWork.mem_grants.mp hx
  unfold ListWork.next
  split
  · exact hx
  · exact ListWork.mem_grants.mpr ⟨ho, List.mem_append.mpr (Or.inl hi), hv⟩

theorem total_subset_next {c : Cmd} {r : c.Reply} {f : Multiset Grant} :
    ∀ x ∈ (listWork env).value g + f, x ∈ (listWork env).value (g.next env c r) + f := by
  intro x hx
  rcases Multiset.mem_add.mp hx with hx | hx
  · refine Multiset.mem_add.mpr (Or.inl ?_)
    have hx : x ∈ g.grants env := by simpa [listWork] using hx
    simpa [listWork] using grants_subset_next x hx
  · exact Multiset.mem_add.mpr (Or.inr hx)

/-- The lists of a call that has addressed a media are grants of its caller. -/
theorem granted_of_next {c : Cmd} {r : c.Reply} (ha : addressedBy env ⟨c, r⟩ = some id)
    {uid v : String} (hu : uid ∈ g.call.listed) (hv : env.uuidIn uid = some v) :
    (g.call.requester?.bind env.uuidIn, id, v) ∈ (g.next env c r).grants env := by
  have hne : g.call.listed ≠ [] := List.ne_nil_of_mem hu
  unfold ListWork.next
  rw [if_neg hne]
  refine ListWork.mem_grants.mpr ⟨rfl, ?_, List.mem_filterMap.mpr ⟨uid, hu, hv⟩⟩
  rw [ha]
  exact List.mem_append.mpr (Or.inr (by simp))

/-- A lookup by a call that lists users. -/
theorem findMedia_conf :
    (confDiscipline env).Keeps (await (.findMedia user id)) g w m
      (fun r g' w' m' => g'.call = g.call ∧ ∀ media, r = some media →
        Justified env media w' m' ∧ env.uuidIn id = some media.id ∧
        ∀ uid ∈ g.call.listed, ∀ v, env.uuidIn uid = some v →
          (g.call.requester?.bind env.uuidIn, media.id, v) ∈ m') Anything := by
  refine keeps_await fun w' f r u hr hi _ he => ?_
  have hinv := @confInv_exec env (.findMedia user id) w' _
    ((listWork env).value (g.next env (.findMedia user id) r) + f) hi (by simp [Cmd.family])
    (by simp [Cmd.family]) (by simp) (by simp) total_subset_next
  rw [he] at hinv
  have hlater : MediaLater w' u := by
    have h := @mediaLater_exec env (.findMedia user id) w'
    rwa [he] at h
  refine ⟨hinv, ⟨hlater, total_subset_next⟩, fun u' n hu hn => ?_⟩
  rcases r with e | r
  · trivial
  · constructor
    · exact ListWork.next_call
    · rintro media rfl
      obtain ⟨rfl, v, -, hid, hget, -, -⟩ := exec_findMedia he rfl
      refine ⟨(justified_of_row hinv hget).later hu, hid, fun uid huid v hv => ?_⟩
      exact grants_mem hu _ (granted_of_next rfl huid hv)

/-- The owner writes an ACL whose users he has listed, now or before. -/
theorem updateSharedWith_conf {i : String} {media : Media} {l : Option (List String)}
    (hi : env.uuidIn i = some media.id) (hlives : LivesOn media w)
    (hl : ∀ uid ∈ l.getD [], ∀ v, env.uuidIn uid = some v →
      (some media.ownerId, media.id, v) ∈ m) :
    (confDiscipline env).Keeps (await (.updateSharedWith user i l)) g w m
      (fun _ g' w' m' => g' = g ∧ ConfLater w m w' m') Anything := by
  refine keeps_await fun w' f r u hr hinv _ he => ?_
  have hnext : (confDiscipline env).next g (.updateSharedWith user i l) r = g :=
    ListWork.next_of_unaddressed fun _ => rfl
  rw [hnext]
  have hlater : ConfLater w' ((confDiscipline env).value g + f) u
      ((confDiscipline env).value g + f) := by
    have h := @mediaLater_exec env (.updateSharedWith user i l) w'
    rw [he] at h
    exact ConfLater.of_media h
  have hstores := mediaStores_exec (c := .updateSharedWith user i l) hinv.stores (by simp)
  have hbefore (k : String) (r' : Media)
      (hr' : (env.exec (.updateSharedWith user i l) w').2.media.get k = some r') :
      ∃ r, w'.media.get k = some r ∧ r.Becomes r' := by
    rcases media_before_exec hr' with hb | ⟨_, _, hc, -⟩
    · exact hb
    · exact absurd hc (by simp)
  have hacl (k : String) (r' : Media)
      (hr' : (env.exec (.updateSharedWith user i l) w').2.media.get k = some r') :
      ∀ v ∈ r'.acl, (some r'.ownerId, k, v) ∈ (confDiscipline env).value g + f := by
    intro v hv
    obtain ⟨row, hrow, hb⟩ := hbefore k r' hr'
    rcases sharedWith_exec hrow hr' with hsame | ⟨_, _, l', hc, -, hk, hs⟩
    · rw [hb.ownerId_eq]
      refine hinv.granted k row hrow v ?_
      rwa [Media.acl, ← hsame]
    · -- the row that is written is the row that was read
      obtain ⟨rfl, rfl, rfl⟩ := Cmd.updateSharedWith.inj hc
      obtain rfl : media.id = k := Option.some.inj (hi.symm.trans hk)
      obtain ⟨now, hnow, hb'⟩ := hlives.later hr.media
      obtain rfl := Option.some.inj (hnow.symm.trans hrow)
      rw [hb.ownerId_eq, hb'.ownerId_eq]
      obtain ⟨uid, huid, huv⟩ := (mem_uuidArrayIn hs).1 v hv
      exact hr.grants _ (hl uid huid v huv)
  have hpaths (k : String) (r' : Media)
      (hr' : (env.exec (.updateSharedWith user i l) w').2.media.get k = some r') (key : String)
      (hkey : r'.RefersTo key) : PathOf k key := by
    obtain ⟨row, hrow, hb⟩ := hbefore k r' hr'
    exact hinv.paths k row hrow key (hb.refersTo hkey)
  have hentries := hinv.entries_later hlater fun key e h => by
    refine @metaCache_before_exec env (.updateSharedWith user i l) _ _ (by simp) _ ?_
    rwa [he]
  rw [he] at hstores hacl hpaths
  refine ⟨⟨hstores, hacl, hpaths, hentries⟩, hlater, fun u' n hu _ => ?_⟩
  have hall : ConfLater w m u' n := ⟨hr.media.trans (hlater.media.trans hu.media),
    fun x hx => hu.grants x (hr.grants x hx)⟩
  cases r with
  | ok a => exact ⟨rfl, hall⟩
  | error e => trivial

theorem findActive_conf :
    (confDiscipline env).Keeps (findActive id user) g w m
      (fun media g' w' m' => g'.call = g.call ∧ Justified env media w' m' ∧
        env.uuidIn id = some media.id ∧ ∀ uid ∈ g.call.listed, ∀ v, env.uuidIn uid = some v →
          (g.call.requester?.bind env.uuidIn, media.id, v) ∈ m') Anything := by
  refine Discipline.Keeps.bind findMedia_conf fun r g' w₁ m₁ hi₁ h => ?_
  cases r with
  | none => exact Discipline.keeps_throw fun _ _ _ _ => trivial
  | some media =>
    refine Discipline.keeps_pure fun u n hr hi => ?_
    obtain ⟨hcall, hfound⟩ := h u n hr hi
    exact ⟨hcall, hfound media rfl⟩

/-- The users of a union are in the ACL that was read, or the call lists them. -/
theorem granted_of_merge {media : Media} {uids : List String} {o : Option String}
    (hj : Justified env media w m) (ho : o = some media.ownerId)
    (hl : ∀ uid ∈ uids, ∀ v, env.uuidIn uid = some v → (o, media.id, v) ∈ m) :
    ∀ uid ∈ mergeUsers media.ownerId media.sharedWith uids, ∀ v, env.uuidIn uid = some v →
      (some media.ownerId, media.id, v) ∈ m := by
  intro uid huid v hv
  rcases mem_mergeUsers.mp huid with hmem | hmem
  · obtain rfl : uid = v := Option.some.inj ((hj.canonical.acl uid hmem).symm.trans hv)
    exact hj.granted uid hmem
  · exact ho ▸ hl uid (mem_otherUsers.mp hmem).1 v hv

theorem share_conf {requesterId : String} {uids : List String}
    (hcall : g.call = .share id requesterId uids) :
    (confDiscipline env).Keeps (share id requesterId uids) g w m Anything Anything := by
  refine Discipline.Keeps.bind findActive_conf fun media g' w₁ m₁ hi₁ h => ?_
  obtain ⟨-, hj, huuid, hlisted⟩ := h.now hi₁
  refine keeps_sync_bind (fun _ _ _ _ _ _ => trivial) fun _ howner => ?_
  have ho := enforceOwner_eq_ok.mp howner
  rw [hcall] at hlisted
  have hmerge := granted_of_merge hj (o := some requesterId |>.bind env.uuidIn)
    (by rw [Option.bind_some, ← ho, hj.canonical.ownerId]) hlisted
  dsimp only
  split
  · exact Discipline.keeps_pure fun _ _ _ _ => trivial
  · refine Discipline.Keeps.bind (updateSharedWith_conf huuid hj.lives fun uid huid v hv => ?_)
      fun _ g₂ w₂ m₂ hi₂ h₂ => ?_
    · split at huid
      · exact absurd huid (by simp)
      · exact hmerge uid huid v hv
    · exact Discipline.Keeps.bind (keeps_await_ok (conf_neutral rfl (by simp [Cmd.family]))
        fun _ => rfl) fun _ _ _ _ _ _ => Discipline.keeps_pure fun _ _ _ _ => trivial

end Bodies

end WhisprMedia
