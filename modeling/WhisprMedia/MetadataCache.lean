import WhisprMedia.AclGrants
import Mathlib.Algebra.Order.Group.Multiset

/-! The cached metadata of a media against completed changes. A share, a dedup hit and a delete
write the row and then issue the DEL of the entry; from the DEL on their change is settled. As
long as the row does not change in between the lookup of a read and its fill, and no call relies on
a change whose DEL is still owed, a read that starts after the change has returned sees it. -/
namespace WhisprMedia
open Awaiting Keyed MediaService QuotaService

/-! What a request settles -/

/-- The values of the users that the call grants access to the row. -/
def Call.granted (env : Env) (x : Call) (m : Media) : List String :=
  (otherUsers m.ownerId x.listed).filterMap env.uuidIn

/-- The call finds its users in the ACL and returns without a write. -/
def Call.addsNothing (m : Media) : Call → Bool
  | .share _ requesterId uids => m.ownerId = requesterId &&
    (mergeUsers m.ownerId m.sharedWith uids).length = (newSet m.acl).length
  | .upload _ _ _ _ sharedWith => (sharedWith.getD []).isEmpty ||
    (mergeUsers m.ownerId m.sharedWith (sharedWith.getD [])).length = m.acl.length
  | _ => false

def Call.isDelete : Call → Bool
  | .delete _ _ => true
  | _ => false

/-- The changes of a media that a request has read and not yet settled, and those it has settled:
users granted, and deletes. -/
structure MetaWork where
  call : Call
  owed : List String × ℕ
  settled : List String × ℕ

namespace MetaWork

def settle (g : MetaWork) (d : List String × ℕ) : MetaWork :=
  { g with settled := (g.settled.1 ++ d.1, g.settled.2 + d.2) }

/-- A lookup: a call that adds nothing is settled, another one owes what it is about to change. -/
def read (env : Env) (id : String) (g : MetaWork) : Option Media → MetaWork
  | none => g
  | some m =>
    if m.id ≠ id then g
    else if g.call.addsNothing m then g.settle (g.call.granted env m, 0)
    else { g with owed := (g.call.granted env m, if g.call.isDelete then 1 else 0) }

def next (env : Env) (id : String) (g : MetaWork) (c : Cmd) (r : c.Reply) : MetaWork :=
  match c, r with
  | .findMedia _ _, .ok media => g.read env id media
  | .delMeta key, .ok _ =>
    if key = metaKey id then { g.settle g.owed with owed := ([], 0) } else g
  | .saveMedia _ media, .ok _ =>
    if env.uuidIn media.id = some id then g.settle (media.acl.filterMap env.uuidIn, 0) else g
  | _, _ => g

end MetaWork

def metaWork (env : Env) (id : String) :
    Account Cmd Cmd.Reply Call MetaWork (Multiset String × ℕ) where
  start x := ⟨x, ([], 0), ([], 0)⟩
  next := MetaWork.next env id
  value g := ((g.settled.1 : Multiset String), g.settled.2)

/-- The user is in the stored ACL of the media. -/
def StoredFor (id v : String) (w : World) : Prop := ∃ r, w.media.get id = some r ∧ v ∈ r.acl

theorem StoredFor.later {id v : String} {w w' : World} (h : StoredFor id v w)
    (hl : AclLater id w w') : StoredFor id v w' := by
  obtain ⟨r, hr, hv⟩ := h
  obtain ⟨r', hr', -⟩ := hl.media id r hr
  exact ⟨r', hr', hl.acl r r' hr hr' v hv⟩

/-- The users that are settled are stored, and the entry of the media lists them; it is gone once a
delete is settled. -/
structure MetaInv (env : Env) (id : String) (w : World) (m : Multiset String × ℕ) : Prop where
  stores : MediaStores env w
  entryRow : ∀ e, w.metaCache (metaKey id) = some e →
    ∃ r, w.media.get id = some r ∧ e.dto.ownerId = r.ownerId
  stored : ∀ v ∈ m.1, StoredFor id v w
  granted : ∀ v ∈ m.1, ∀ e, w.metaCache (metaKey id) = some e → v ∈ e.sharedWith.getD []
  deleted : 0 < m.2 → w.metaCache (metaKey id) = none ∧
    ∃ r, w.media.get id = some r ∧ r.isActive = false

theorem MetaInv.canonical {env : Env} {id : String} {w : World} {m : Multiset String × ℕ}
    (h : MetaInv env id w m) : RowsCanonical env w := h.stores.canonical

/-- What is settled here is settled there. -/
structure SettledIn (m m' : Multiset String × ℕ) : Prop where
  granted : ∀ v ∈ m.1, v ∈ m'.1
  deleted : m.2 ≤ m'.2

theorem SettledIn.refl (m : Multiset String × ℕ) : SettledIn m m := ⟨fun _ hv => hv, le_refl _⟩

theorem SettledIn.trans {m m' m'' : Multiset String × ℕ} (h : SettledIn m m')
    (h' : SettledIn m' m'') : SettledIn m m'' :=
  ⟨fun v hv => h'.granted v (h.granted v hv), le_trans h.deleted h'.deleted⟩

theorem SettledIn.add_right {m m' : Multiset String × ℕ} (h : SettledIn m m')
    (f : Multiset String × ℕ) : SettledIn (m + f) (m' + f) := by
  refine ⟨fun v hv => ?_, ?_⟩
  · rcases Multiset.mem_add.mp hv with hv | hv
    · exact Multiset.mem_add.mpr (Or.inl (h.granted v hv))
    · exact Multiset.mem_add.mpr (Or.inr hv)
  · have hle := h.deleted
    simp only [Prod.snd_add]
    omega

theorem settledIn_add (m f : Multiset String × ℕ) : SettledIn m (m + f) := by
  refine ⟨fun v hv => Multiset.mem_add.mpr (Or.inl hv), ?_⟩
  simp only [Prod.snd_add]
  omega

theorem settledIn_settle (env : Env) (id : String) (g : MetaWork) (d : List String × ℕ) :
    SettledIn ((metaWork env id).value g) ((metaWork env id).value (g.settle d)) := by
  refine ⟨fun v hv => ?_, Nat.le_add_right _ _⟩
  have hv : v ∈ g.settled.1 := by simpa [metaWork] using hv
  simp [metaWork, MetaWork.settle, hv]

/-- Rows stay, no user leaves the ACL, and what is settled stays settled. -/
structure MetaLater (id : String) (w : World) (m : Multiset String × ℕ) (w' : World)
    (m' : Multiset String × ℕ) : Prop where
  acl : AclLater id w w'
  settled : SettledIn m m'

theorem MetaLater.media {id : String} {w w' : World} {m m' : Multiset String × ℕ}
    (h : MetaLater id w m w' m') : MediaLater w w' := h.acl.media

/-- The entry that a command stores. -/
def Cmd.metaFill? : Cmd → Option (String × CachedMeta)
  | .setMeta key entry _ => some (key, entry)
  | _ => none

/-- A call that adds nothing finds its users in the entry too. -/
def UnchangedShown (env : Env) (id : String) (w : World) (x : Call) (c : Cmd) : Prop :=
  ∀ i ∈ c.lookedUp?, env.uuidIn i = some id → ∀ m ∈ w.media.get id, m.isActive = true →
    x.addsNothing m = true → ∀ e ∈ w.metaCache (metaKey id),
      ∀ v ∈ x.granted env m, v ∈ e.sharedWith.getD []

/-- The entry shows the media as it is stored, and the media is active. -/
def ShowsMedia (id : String) (w : World) (e : CachedMeta) : Prop :=
  ∃ r, w.media.get id = some r ∧ r.isActive = true ∧ e.sharedWith = r.sharedWith

/-- What a step has to respect: a fill shows the media, a call without a change is shown by the
entry, and the ACL keeps its users. -/
structure MetaStep (env : Env) (id : String) (w : World) (x : Call) (c : Cmd) : Prop where
  fill : ∀ f ∈ c.metaFill?, f.1 = metaKey id → ShowsMedia id w f.2
  shown : UnchangedShown env id w x c
  kept : KeepsUsers env id w c
  length : LengthTells env id w x c

def metaDiscipline (env : Env) (id : String) :
    Discipline (service env) MetaWork (Multiset String × ℕ) where
  toAccount := metaWork env id
  inv := MetaInv env id
  rely := MetaLater id
  may w _ g c := MetaStep env id w g.call c
  rely_refl _ m := ⟨AclLater.of_eq rfl, SettledIn.refl m⟩
  rely_trans h h' := ⟨h.acl.trans h'.acl, h.settled.trans h'.settled⟩

section Commands
variable {env : Env} {id : String} {c : Cmd} {w w' : World} {g : MetaWork}
  {m n : Multiset String × ℕ}

/-- The invariant when the entry stays or disappears and nothing else is settled. -/
theorem MetaInv.later (h : MetaInv env id w m) (hl : AclLater id w w')
    (hc : MediaStores env w')
    (he : ∀ e, w'.metaCache (metaKey id) = some e → w.metaCache (metaKey id) = some e) :
    MetaInv env id w' m := by
  refine ⟨hc, fun e hent => ?_, fun v hv => (h.stored v hv).later hl,
    fun v hv e hent => h.granted v hv e (he e hent), fun hn => ?_⟩
  · obtain ⟨r, hr, ho⟩ := h.entryRow e (he e hent)
    obtain ⟨r', hr', hb⟩ := hl.media id r hr
    exact ⟨r', hr', hb.ownerId_eq ▸ ho⟩
  · obtain ⟨hnone, hgone⟩ := h.deleted hn
    constructor
    · cases hent : w'.metaCache (metaKey id) with
      | none => rfl
      | some e => exact absurd (he e hent) (by simp [hnone])
    · exact Gone.later hgone hl.media

theorem metaInv_exec (h : MetaInv env id w m) (hk : KeepsUsers env id w c)
    (hd : ∀ key i ttl, c ≠ .setDedup key i ttl) (hc : ∀ key e ttl, c ≠ .setMeta key e ttl) :
    MetaInv env id (env.exec c w).2 m := by
  refine h.later (aclLater_exec hk) (mediaStores_exec h.stores hd) fun e he => ?_
  exact metaCache_before_exec hc he

/-- The families that neither read nor change what this is about. -/
def Family.quietForMeta : Family → Bool
  | .metadata | .mediaLookup | .mediaInsert | .dedup => false
  | _ => true

theorem meta_neutral (hf : c.family.quietForMeta = true) :
    (metaDiscipline env id).Neutral g c := by
  intro w f hi hm
  refine ⟨?_, metaInv_exec hi hm.kept ?_ ?_, ⟨aclLater_exec hm.kept, SettledIn.refl _⟩⟩
  · cases hr : ((service env).exec c w).1 <;>
      cases c <;> first | rfl | exact Bool.noConfusion hf
  all_goals
    rintro _ _ _ rfl
    exact Bool.noConfusion hf

theorem meta_neutrals {F : List Family} (hF : ∀ f ∈ F, f.quietForMeta = true) :
    ∀ c : Cmd, c.family ∈ F → (metaDiscipline env id).Neutral g c :=
  fun _ hc => meta_neutral (hF _ hc)

theorem getMeta_neutral (key : String) : (metaDiscipline env id).Neutral g (.getMeta key) := by
  intro w f hi hm
  exact ⟨rfl, metaInv_exec hi hm.kept (by simp) (by simp), ⟨AclLater.of_eq rfl, SettledIn.refl _⟩⟩

theorem getDedup_neutral (key : String) : (metaDiscipline env id).Neutral g (.getDedup key) := by
  intro w f hi hm
  exact ⟨rfl, metaInv_exec hi hm.kept (by simp) (by simp), ⟨AclLater.of_eq rfl, SettledIn.refl _⟩⟩

/-- A request that neither lists nor deletes, and owes nothing. -/
def MetaWork.Reads (g : MetaWork) : Prop :=
  g.call.listed = [] ∧ g.call.isDelete = false ∧ g.owed = ([], 0) ∧
    ∀ m, g.call.addsNothing m = false

theorem read_of_reads (hg : g.Reads) (r : Option Media) : g.read env id r = g := by
  obtain ⟨hl, hd, ho, ha⟩ := hg
  cases r with
  | none => rfl
  | some media =>
    have hnone : g.call.granted env media = [] := by simp [Call.granted, hl, otherUsers]
    simp only [MetaWork.read, ha, hd, hnone, Bool.false_eq_true, ↓reduceIte]
    split
    · rfl
    · rw [← ho]

theorem lookup_neutral (hg : g.Reads) (user i : String) :
    (metaDiscipline env id).Neutral g (.findMedia user i) := by
  intro w f hi hm
  have hread : (metaDiscipline env id).next g (.findMedia user i)
      ((service env).exec (.findMedia user i) w).1 = g := by
    generalize ((service env).exec (.findMedia user i) w).1 = r
    rcases r with e | media
    · rfl
    · exact read_of_reads hg media
  exact ⟨hread, metaInv_exec hi hm.kept (by simp) (by simp), ⟨aclLater_exec hm.kept, SettledIn.refl _⟩⟩

/-- A call that adds nothing lists users of the ACL only. -/
theorem listed_of_addsNothing {x : Call} {media : Media}
    (hlen : (x.missing media).card = media.repeated → x.missing media = ∅)
    (h : x.addsNothing media = true) : ∀ uid ∈ otherUsers media.ownerId x.listed, uid ∈ media.acl := by
  cases x with
  | share i requesterId uids =>
    have hsame := of_decide_eq_true (Bool.and_eq_true_iff.mp h).2
    exact fun uid huid => mem_newSet.mp (subset_of_length_foldl hsame uid huid)
  | upload ownerId file context thumbnailFile sharedWith =>
    intro uid huid
    rcases Bool.or_eq_true_iff.mp h with hempty | hsame
    · exact absurd huid (by simp [Call.listed, List.isEmpty_iff.mp hempty, otherUsers])
    · exact missing_of_length hlen (of_decide_eq_true hsame) uid huid
  | _ => exact Bool.noConfusion h

/-- In a canonical ACL, these users have the values that the call grants. -/
theorem granted_of_addsNothing {x : Call} {media : Media} (hc : media.Canonical env)
    (hlen : (x.missing media).card = media.repeated → x.missing media = ∅)
    (h : x.addsNothing media = true) : ∀ v ∈ x.granted env media, v ∈ media.acl := by
  intro v hv
  obtain ⟨uid, huid, huv⟩ := List.mem_filterMap.mp hv
  have hmem := listed_of_addsNothing hlen h uid huid
  exact Option.some.inj ((hc.acl uid hmem).symm.trans huv) ▸ hmem

end Commands

section Bodies
variable {env : Env} {id : String} {w w' : World} {g : MetaWork} {m : Multiset String × ℕ}

abbrev Whatever {α : Type} : α → MetaWork → World → Multiset String × ℕ → Prop :=
  fun _ _ _ _ => True

/-- The account of a request is part of the total. -/
theorem value_le_total {f n : Multiset String × ℕ} {u u' : World}
    (h : MetaLater id u ((metaWork env id).value g + f) u' n) :
    SettledIn ((metaWork env id).value g) n :=
  (settledIn_add _ f).trans h.settled

/-- A request settles users that are stored and that the entry lists, and deletes that have left
neither an active row nor an entry. -/
theorem MetaInv.settle {f : Multiset String × ℕ} (d : List String × ℕ)
    (h : MetaInv env id w ((metaWork env id).value g + f))
    (hstored : ∀ v ∈ d.1, StoredFor id v w)
    (hshown : ∀ v ∈ d.1, ∀ e, w.metaCache (metaKey id) = some e → v ∈ e.sharedWith.getD [])
    (hdeleted : 0 < d.2 → w.metaCache (metaKey id) = none ∧ Gone id w) :
    MetaInv env id w ((metaWork env id).value (g.settle d) + f) := by
  have hsettled {v : String} (hv : v ∈ ((metaWork env id).value (g.settle d) + f).1) :
      v ∈ ((metaWork env id).value g + f).1 ∨ v ∈ d.1 := by
    have hv : (v ∈ g.settled.1 ∨ v ∈ d.1) ∨ v ∈ f.1 := by
      simpa [metaWork, MetaWork.settle] using hv
    rcases hv with (hv | hv) | hv
    · exact Or.inl (by simp [metaWork, hv])
    · exact Or.inr hv
    · exact Or.inl (by simp [hv])
  refine ⟨h.stores, h.entryRow, fun v hv => ?_, fun v hv e he => ?_, fun hn => ?_⟩
  · exact (hsettled hv).elim (h.stored v) (hstored v)
  · exact (hsettled hv).elim (fun hv => h.granted v hv e he) fun hv => hshown v hv e he
  · by_cases hd : 0 < d.2
    · exact hdeleted hd
    · refine h.deleted ?_
      have hn : 0 < g.settled.2 + d.2 + f.2 := hn
      show 0 < g.settled.2 + f.2
      omega

/-- What a lookup finds, and what it means for the request. -/
theorem findMedia_meta (user i : String) :
    (metaDiscipline env id).Keeps (await (.findMedia user i)) g w m
      (fun r g' w' m' => g' = g.read env id r ∧ SettledIn ((metaWork env id).value g') m' ∧
        ∀ media, r = some media →
          env.uuidIn i = some media.id ∧ media.Canonical env ∧ LivesOn media w')
      (fun _ g' _ _ => g' = g) := by
  refine keeps_await fun w' f r u hr hi hm he => ?_
  obtain rfl := findMedia_world he
  rcases r with e | r
  · exact ⟨hi, ⟨AclLater.of_eq rfl, SettledIn.refl _⟩, fun _ _ _ _ => rfl⟩
  · have hg : (metaDiscipline env id).next g (.findMedia user i) (.ok r) = g.read env id r := rfl
    rw [hg]
    cases r with
    | none =>
      refine ⟨hi, ⟨AclLater.of_eq rfl, SettledIn.refl _⟩, fun u' n hu _ =>
        ⟨rfl, value_le_total hu, ?_⟩⟩
      intro media hmedia
      exact absurd hmedia (by simp)
    | some media =>
      obtain ⟨-, v, hv, hid, hget, hactive, hsel⟩ := exec_findMedia he rfl
      have hlives : LivesOn media u := ⟨media, hget, Media.Becomes.refl media⟩
      -- the only account that grows is the one of a call that adds nothing
      have hstep : MetaInv env id u ((metaWork env id).value (g.read env id (some media)) + f) ∧
          SettledIn ((metaWork env id).value g)
            ((metaWork env id).value (g.read env id (some media))) := by
        by_cases hmid : media.id = id
        · have hfound : media ∈ u.media.get id := by simp [← hmid, hget]
          by_cases hadds : g.call.addsNothing media = true
          · simp only [MetaWork.read, hmid, ne_eq, not_true_eq_false, ↓reduceIte, hadds]
            refine ⟨hi.settle _ (fun x hx => ?_) (fun x hx e hent => ?_) fun h => absurd h (by simp),
              settledIn_settle env id g _⟩
            · have hlen := hm.length i rfl (hmid ▸ hid) media hfound hactive
              exact ⟨media, hfound, granted_of_addsNothing (hi.canonical _ _ hget) hlen hadds x hx⟩
            · exact hm.shown i rfl (hmid ▸ hid) media hfound hactive hadds e hent x hx
          · simp only [MetaWork.read, hmid, ne_eq, not_true_eq_false, ↓reduceIte, hadds]
            exact ⟨hi, SettledIn.refl _⟩
        · simp only [MetaWork.read, ne_eq, hmid, not_false_eq_true, ↓reduceIte]
          exact ⟨hi, SettledIn.refl _⟩
      refine ⟨hstep.1, ⟨AclLater.of_eq rfl, hstep.2.add_right f⟩, fun u' n hu _ =>
        ⟨rfl, value_le_total hu, ?_⟩⟩
      intro media' hmedia
      obtain rfl := Option.some.inj hmedia
      exact ⟨hid, hi.canonical _ _ hget, hlives.later hu.media⟩

/-- The DEL settles what is owed; it is stored by then, and a delete has made the row inactive. -/
theorem delMeta_meta (key : String) {E : Err → MetaWork → World → Multiset String × ℕ → Prop}
    (hstored : key = metaKey id → ∀ v ∈ g.owed.1, StoredFor id v w)
    (hdel : key = metaKey id → 0 < g.owed.2 → Gone id w) :
    (metaDiscipline env id).Keeps (await (.delMeta key)) g w m
      (fun _ g' w' m' => MediaLater w w' ∧ SettledIn ((metaWork env id).value g') m' ∧
        g' = if key = metaKey id then { g.settle g.owed with owed := ([], 0) } else g) E := by
  refine keeps_await fun w' f r u hr hi hm he => ?_
  obtain ⟨rfl, rfl⟩ := Prod.mk.inj he
  have hinv := metaInv_exec hi hm.kept (by simp) (by simp)
  have hg : (metaDiscipline env id).next g (.delMeta key) (.ok ()) =
      if key = metaKey id then { g.settle g.owed with owed := ([], 0) } else g := rfl
  rw [hg]
  by_cases hk : key = metaKey id
  · rw [if_pos hk]
    have hle : SettledIn ((metaWork env id).value g)
        ((metaWork env id).value { g.settle g.owed with owed := ([], 0) }) :=
      settledIn_settle env id g g.owed
    have hempty : Function.update w'.metaCache key none (metaKey id) = none := by simp [hk]
    have hsettle := hinv.settle g.owed
      (fun v hv => (hstored hk v hv).later (hr.acl.trans (AclLater.of_eq rfl)))
      (fun v _ e hent => absurd (hempty.symm.trans hent) (by simp))
      fun howed => ⟨hempty, Gone.later (hdel hk howed) hr.media⟩
    exact ⟨hsettle, ⟨AclLater.of_eq rfl, hle.add_right f⟩, fun u' n hu _ =>
      ⟨hr.media.trans hu.media, value_le_total hu, rfl⟩⟩
  · rw [if_neg hk]
    exact ⟨hinv, ⟨AclLater.of_eq rfl, SettledIn.refl _⟩, fun u' n hu _ =>
      ⟨hr.media.trans hu.media, value_le_total hu, rfl⟩⟩

/-- A fill: the entry has been read from the row. -/
theorem setMeta_meta {key : String} {entry : CachedMeta} {ttl : ℕ}
    {E : Err → MetaWork → World → Multiset String × ℕ → Prop}
    (hrow : key = metaKey id → ∃ r, w.media.get id = some r ∧ entry.dto.ownerId = r.ownerId) :
    (metaDiscipline env id).Keeps (await (.setMeta key entry ttl)) g w m
      (fun _ g' w' m' => g' = g ∧ MetaLater id w m w' m') E := by
  refine keeps_await fun w' f r u hr hi hm he => ?_
  obtain ⟨rfl, rfl⟩ := Prod.mk.inj he
  have hg : (metaDiscipline env id).next g (.setMeta key entry ttl) (.ok ()) = g := rfl
  rw [hg]
  refine ⟨?_, ⟨AclLater.of_eq rfl, SettledIn.refl _⟩, fun u' n hu _ =>
    ⟨rfl, ⟨(hr.acl.trans (AclLater.of_eq (by rfl))).trans hu.acl, hr.settled.trans hu.settled⟩⟩⟩
  have hstores := @mediaStores_exec env w' (.setMeta key entry ttl) hi.stores (by simp)
  by_cases hk : key = metaKey id
  · obtain ⟨now, hnow, hactive, hsame⟩ := hm.fill (key, entry) rfl hk
    refine ⟨hstores, fun e hent => ?_, fun v hv => (hi.stored v hv).later (AclLater.of_eq rfl),
      fun v hv e hent => ?_, fun hn => ?_⟩
    · simp only [hk, Function.update_self, Option.some.injEq] at hent
      subst hent
      obtain ⟨row, hget, ho⟩ := hrow hk
      obtain ⟨row', hget', hb⟩ := hr.media id row hget
      exact ⟨row', hget', ho.trans hb.ownerId_eq.symm⟩
    · -- what is settled is stored, and the entry is what is stored
      simp only [hk, Function.update_self, Option.some.injEq] at hent
      obtain ⟨r, hr, hacl⟩ := hi.stored v hv
      obtain rfl := Option.some.inj (hnow.symm.trans hr)
      rwa [← hent, hsame]
    · obtain ⟨r, hr, hinactive⟩ := (hi.deleted hn).2
      obtain rfl := Option.some.inj (hnow.symm.trans hr)
      exact absurd (hactive.symm.trans hinactive) (by simp)
  · refine hi.later (AclLater.of_eq rfl) hstores fun e hent => ?_
    simpa [Function.update_of_ne (Ne.symm hk)] using hent

/-- The user is settled, or he owns the media. -/
def Shown (id v : String) (w : World) (m : Multiset String × ℕ) : Prop :=
  v ∈ m.1 ∨ ∃ r, w.media.get id = some r ∧ r.ownerId = v

theorem Shown.later {v : String} {m' : Multiset String × ℕ} (h : Shown id v w m)
    (hl : MetaLater id w m w' m') : Shown id v w' m' := by
  rcases h with h | ⟨r, hr, ho⟩
  · exact Or.inl (hl.settled.granted v h)
  · obtain ⟨r', hr', hb⟩ := hl.media id r hr
    exact Or.inr ⟨r', hr', hb.ownerId_eq.trans ho⟩

/-- Every listed user is shown. -/
def AllShown (env : Env) (id : String) (uids : List String) (w : World)
    (m : Multiset String × ℕ) : Prop :=
  ∀ uid ∈ uids, uid ≠ "" → ∀ v, env.uuidIn uid = some v → Shown id v w m

/-- Once the users a call grants are settled, every listed user is shown. -/
theorem allShown_of_granted {media : Media} {x : Call} (hc : media.Canonical env)
    (hlives : LivesOn media w) (hid : media.id = id)
    (h : ∀ v ∈ x.granted env media, v ∈ m.1) : AllShown env id x.listed w m := by
  intro uid huid hne v hv
  by_cases hown : uid = media.ownerId
  · obtain ⟨r, hr, hb⟩ := hlives
    obtain rfl : media.ownerId = v := Option.some.inj (hc.ownerId.symm.trans (hown ▸ hv))
    exact Or.inr ⟨r, hid ▸ hr, hb.ownerId_eq⟩
  · refine Or.inl (h v ?_)
    exact List.mem_filterMap.mpr ⟨uid, mem_otherUsers.mpr ⟨huid, hne, hown⟩, hv⟩

theorem mem_settled_settle {d : List String × ℕ} {v : String} (hv : v ∈ d.1) :
    v ∈ ((metaWork env id).value (g.settle d)).1 := by
  simp [metaWork, MetaWork.settle, hv]

/-- What a lookup has found, and what it means for the request. -/
structure ReadBy (env : Env) (id i : String) (g : MetaWork) (media : Media) (g' : MetaWork)
    (w : World) (m : Multiset String × ℕ) : Prop where
  account : g' = g.read env id (some media)
  settled : SettledIn ((metaWork env id).value g') m
  uuid : env.uuidIn i = some media.id
  canonical : media.Canonical env
  lives : LivesOn media w

theorem findActive_meta (i user : String) :
    (metaDiscipline env id).Keeps (findActive i user) g w m
      (fun media g' w' m' => ReadBy env id i g media g' w' m') Whatever := by
  refine Discipline.Keeps.bind ((findMedia_meta user i).mono (fun _ _ _ _ _ h => h)
    fun _ _ _ _ _ _ => trivial) fun r g' w₁ m₁ hi₁ h => ?_
  cases r with
  | none => exact Discipline.keeps_throw fun _ _ _ _ => trivial
  | some media =>
    refine Discipline.keeps_pure fun u n hr hi => ?_
    obtain ⟨hg, hle, hfound⟩ := h u n hr hi
    obtain ⟨hid, hc, hlives⟩ := hfound media rfl
    exact ⟨hg, hle, hid, hc, hlives⟩

/-- A call that adds nothing has settled its users with its lookup. -/
theorem shown_of_unchanged {i : String} {media : Media} {g' : MetaWork}
    (h : ReadBy env id i g media g' w m) (hadds : g.call.addsNothing media = true)
    (hid : media.id = id) : AllShown env id g.call.listed w m := by
  refine allShown_of_granted h.canonical h.lives hid fun v hv => h.settled.granted v ?_
  have hread : g' = g.settle (g.call.granted env media, 0) := by
    rw [h.account, MetaWork.read, if_neg (not_not.mpr hid), if_pos hadds]
  rw [hread]
  exact mem_settled_settle hv

/-- The DEL after a write settles the users of the call. -/
theorem delOwed_meta {i k : String} {media : Media} {g' : MetaWork}
    (h : ReadBy env id i g media g' w m)
    (hstored : media.id = id → ∀ v ∈ g.call.granted env media, StoredFor id v w)
    (hadds : g.call.addsNothing media = false)
    (hdel : g.call.isDelete = false) (howed : g.owed = ([], 0)) (hk : media.id = id → k = id)
    {E : Err → MetaWork → World → Multiset String × ℕ → Prop} :
    (metaDiscipline env id).Keeps (await (.delMeta (metaKey k))) g' w m
      (fun _ _ w' m' => media.id = id → AllShown env id g.call.listed w' m') E := by
  have hread : g' = if media.id ≠ id then g else { g with owed := (g.call.granted env media, 0) } := by
    rw [h.account, MetaWork.read, hadds, hdel]
    simp
  have hzero : g'.owed.2 = 0 := by
    rw [hread]
    split
    · rw [howed]
    · rfl
  have hall : ∀ v ∈ g'.owed.1, StoredFor id v w := by
    intro v hv
    rw [hread] at hv
    split at hv
    · exact absurd hv (by simp [howed])
    · next hthis => exact hstored (not_not.mp hthis) v hv
  refine (delMeta_meta (metaKey k) (fun _ => hall) fun _ hn => absurd hn (by omega)).mono
    (fun _ g₂ w₂ m₂ _ h₂ hid => ?_) fun _ _ _ _ _ h => h
  obtain ⟨hl, hle, hg₂⟩ := h₂
  refine allShown_of_granted h.canonical (h.lives.later hl) hid fun v hv => hle.granted v ?_
  rw [hg₂, if_pos (by rw [hk hid]), hread, if_neg (not_not.mpr hid)]
  exact @mem_settled_settle env id { g with owed := (g.call.granted env media, 0) }
    (g.call.granted env media, 0) v hv

/-- The owner's UPDATE stores the users that the call grants. -/
theorem updateAcl_meta {i k user : String} {media : Media} {g' : MetaWork}
    {l : Option (List String)} (h : (metaDiscipline env id).Stays (ReadBy env id i g media g') w m)
    (hk : env.uuidIn k = some media.id) (ho : env.uuidIn user = some media.ownerId)
    (hl : ∀ uid ∈ otherUsers media.ownerId g.call.listed, uid ∈ l.getD []) :
    (metaDiscipline env id).Keeps (await (.updateSharedWith user k l)) g' w m
      (fun _ g₂ w' m' => g₂ = g' ∧ ReadBy env id i g media g' w' m' ∧
        (media.id = id → ∀ v ∈ g.call.granted env media, StoredFor id v w')) Whatever := by
  refine (keeps_await_neutral (meta_neutral rfl)).mono (fun _ g₂ w₂ m₂ hi₂ h₂ => ?_)
    fun _ _ _ _ _ _ => trivial
  obtain ⟨rfl, ha⟩ := h₂
  refine ⟨rfl, h w₂ m₂ ha.rely hi₂, ?_⟩
  rintro rfl v hv
  obtain ⟨w₀, u, m₀, hr₀, hi₀, -, he, -, -, hlate⟩ := ha.answered
  obtain ⟨r, hr, hall⟩ := listed_of_update he (h w₀ m₀ hr₀ hi₀).lives hk ho
  obtain ⟨uid, huid, huv⟩ := List.mem_filterMap.mp hv
  obtain ⟨v', hv', huv'⟩ := hall uid (hl uid huid)
  obtain rfl := Option.some.inj (huv.symm.trans huv')
  exact StoredFor.later ⟨r, hr, hv'⟩ hlate.acl

theorem share_meta {i requesterId : String} {uids : List String}
    (hcall : g.call = .share i requesterId uids) (howed : g.owed = ([], 0))
    (hname : env.uuidIn i = some id → i = id) :
    (metaDiscipline env id).Keeps (share i requesterId uids) g w m
      (fun _ _ w' m' => env.uuidIn i = some id → AllShown env id uids w' m') Whatever := by
  have hlisted : g.call.listed = uids := by rw [hcall]; rfl
  refine Discipline.Keeps.bind (findActive_meta i requesterId) fun media g' w₁ m₁ hi₁ h => ?_
  have huuid := (h.now hi₁).uuid
  have hsame : env.uuidIn i = some id → media.id = id :=
    fun hi => Option.some.inj (huuid.symm.trans hi)
  refine keeps_sync_bind (fun _ _ _ _ _ _ => trivial) fun _ howner => ?_
  have ho := enforceOwner_eq_ok.mp howner
  dsimp only
  split
  · next hlen =>
    have hadds : g.call.addsNothing media = true := by
      rw [hcall]
      simpa [Call.addsNothing, ho, Media.acl] using hlen
    refine Discipline.keeps_pure fun u n hr hi hthis => ?_
    exact hlisted ▸ shown_of_unchanged (h u n hr hi) hadds (hsame hthis)
  · next hlen =>
    have hadds : g.call.addsNothing media = false := by
      rw [hcall]
      simpa [Call.addsNothing, ho, Media.acl] using hlen
    have hall : ∀ uid ∈ otherUsers media.ownerId g.call.listed,
        uid ∈ (if (mergeUsers media.ownerId media.sharedWith uids).isEmpty then none
          else some (mergeUsers media.ownerId media.sharedWith uids)).getD [] :=
      fun uid huid => mem_written (Or.inr (hlisted ▸ huid))
    have hmine : env.uuidIn requesterId = some media.ownerId := ho ▸ (h.now hi₁).canonical.ownerId
    refine Discipline.Keeps.bind (updateAcl_meta h huuid hmine hall) fun _ g₂ w₂ m₂ hi₂ h₂ => ?_
    obtain ⟨rfl, hread, hstored⟩ := h₂.now hi₂
    have hname' : media.id = id → i = id := fun hid => hname (hid ▸ huuid)
    refine Discipline.Keeps.bind (delOwed_meta hread hstored hadds (by rw [hcall]; rfl) howed
      hname') fun _ g₃ w₃ m₃ _ h₃ => ?_
    refine Discipline.keeps_pure fun u n hr hi hthis => ?_
    exact hlisted ▸ h₃ u n hr hi (hsame hthis)

theorem mergeSharedWith_meta {ownerId i : String} {existing : Media} {file : File}
    {context : MediaContext} {thumbnailFile : Option File} {sharedWith : Option (List String)}
    {o : String} (hcall : g.call = .upload o file context thumbnailFile sharedWith)
    (howed : g.owed = ([], 0)) {g' : MetaWork} (ho : env.uuidIn ownerId = some existing.ownerId)
    (hc : existing.Canonical env)
    (h : (metaDiscipline env id).Stays (ReadBy env id i g existing g') w m) :
    (metaDiscipline env id).Keeps (mergeSharedWith ownerId existing sharedWith) g' w m
      (fun _ _ w' m' => existing.id = id → AllShown env id (sharedWith.getD []) w' m')
      Whatever := by
  have hlisted : g.call.listed = sharedWith.getD [] := by rw [hcall]; rfl
  unfold mergeSharedWith
  dsimp only
  split
  · next hwrite =>
    have hadds : g.call.addsNothing existing = false := by
      rw [hcall]
      refine Bool.or_eq_false_iff.mpr ⟨?_, decide_eq_false ?_⟩
      · simpa using (Bool.and_eq_true_iff.mp hwrite).1
      · simpa [Media.acl] using (Bool.and_eq_true_iff.mp hwrite).2
    refine Discipline.Keeps.bind (updateAcl_meta h hc.id ho fun uid huid => ?_)
      fun _ g₂ w₂ m₂ hi₂ h₂ => ?_
    · exact mem_mergeUsers.mpr (Or.inr (hlisted ▸ huid))
    obtain ⟨rfl, hread, hstored⟩ := h₂.now hi₂
    exact hlisted ▸ delOwed_meta hread hstored hadds (by rw [hcall]; rfl) howed fun hid => hid
  · next hkeep =>
    have hadds : g.call.addsNothing existing = true := by
      rw [hcall]
      simp only [Bool.and_eq_true, decide_eq_true_eq, not_and, ne_eq, not_not] at hkeep
      by_cases hempty : (sharedWith.getD []).isEmpty = true
      · simp [Call.addsNothing, hempty]
      · simp [Call.addsNothing, Media.acl, hkeep (by simpa using hempty)]
    refine Discipline.keeps_pure fun u n hr hi hid => ?_
    exact hlisted ▸ shown_of_unchanged (h u n hr hi) hadds hid

/-- The row of the media is the user's own. -/
def OwnedBy (env : Env) (ownerId i : String) (w : World) : Prop :=
  ∃ r, w.media.get i = some r ∧ env.uuidIn ownerId = some r.ownerId

theorem OwnedBy.later {ownerId i : String} (h : OwnedBy env ownerId i w) (hl : MediaLater w w') :
    OwnedBy env ownerId i w' := by
  obtain ⟨r, hr, ho⟩ := h
  obtain ⟨r', hr', hb⟩ := hl i r hr
  exact ⟨r', hr', hb.ownerId_eq ▸ ho⟩

/-- No entry can be there for a row that is only now inserted. -/
theorem saveNew_meta {ownerId : String} {media : Media} {sharedWith : Option (List String)}
    (hid : env.uuidIn media.id = some media.id)
    (hacl : media.sharedWith = initialSharedWith ownerId sharedWith) :
    (metaDiscipline env id).Keeps (saveMedia ownerId media) g w m
      (fun _ _ w' m' => OwnedBy env ownerId media.id w' ∧
        (media.id = id → AllShown env id (sharedWith.getD []) w' m')) Whatever := by
  refine saveMedia_of_insert (fun _ c hc => meta_neutral (by rw [hc]; rfl))
    (keeps_await fun w' f r u hr hi hm he => ?_)
  have hlater := @aclLater_exec env id (.saveMedia ownerId media) w' hm.kept
  have hinv := metaInv_exec hi hm.kept (by simp) (by simp)
  rw [he] at hlater hinv
  rcases exec_saveMedia he with ⟨row, rfl, hin, howner, hn, rfl⟩ | ⟨e, rfl, rfl⟩
  · obtain ⟨hid', -, hs, -⟩ := mediaIn_eq hin
    have hrow : row.id = media.id := Option.some.inj (hid'.symm.trans hid)
    have hget : (w'.media.insert row).get media.id = some row := by
      rw [get_insertMedia hn, if_pos hrow.symm]
    have hown : OwnedBy env ownerId media.id { w' with media := w'.media.insert row } :=
      ⟨row, hget, howner⟩
    have hg : (metaDiscipline env id).next g (.saveMedia ownerId media) (.ok ()) =
        if env.uuidIn media.id = some id then g.settle (media.acl.filterMap env.uuidIn, 0)
        else g := rfl
    rw [hg]
    -- an INSERT of another media does not concern the entry
    by_cases hthis : env.uuidIn media.id = some id
    · rw [if_pos hthis]
      obtain rfl : media.id = id := Option.some.inj (hid.symm.trans hthis)
      have hnone : w'.metaCache (metaKey media.id) = none := by
        cases hent : w'.metaCache (metaKey media.id) with
        | none => rfl
        | some e =>
          obtain ⟨r, hr, -⟩ := hi.entryRow e hent
          rw [← hrow, hn] at hr
          exact absurd hr (by simp)
      have hlate : SettledIn ((metaWork env media.id).value g)
          ((metaWork env media.id).value (g.settle (media.acl.filterMap env.uuidIn, 0))) :=
        settledIn_settle env media.id g _
      refine ⟨hinv.settle _ (fun v hv => ?_)
          (fun v _ e hent => absurd (hnone.symm.trans hent) (by simp)) fun h => absurd h (by simp),
        ⟨hlater, hlate.add_right f⟩, fun u' n hu hi' => ⟨hown.later hu.media, fun _ => ?_⟩⟩
      · obtain ⟨uid, huid, huv⟩ := List.mem_filterMap.mp hv
        obtain ⟨v', hv', huv'⟩ := (mem_uuidArrayIn hs).2 uid huid
        exact ⟨row, hget, Option.some.inj (huv.symm.trans huv') ▸ hv'⟩
      · intro uid huid hne v hv
        -- the owner needs no place in the ACL
        by_cases hown : uid = ownerId
        · obtain ⟨row', hrow', hb⟩ := hu.media media.id row hget
          refine Or.inr ⟨row', hrow', ?_⟩
          rw [hb.ownerId_eq]
          exact Option.some.inj (howner.symm.trans (hown ▸ hv))
        · refine Or.inl ((value_le_total hu).granted v (mem_settled_settle ?_))
          refine List.mem_filterMap.mpr ⟨uid, ?_, hv⟩
          rw [Media.acl, hacl]
          exact mem_initialSharedWith.mpr (mem_otherUsers.mpr ⟨huid, hne, hown⟩)
    · rw [if_neg hthis]
      exact ⟨hinv, ⟨hlater, SettledIn.refl _⟩, fun _ _ hu _ =>
        ⟨hown.later hu.media, fun hm => absurd (hm ▸ hid) hthis⟩⟩
  · exact ⟨hi, ⟨hlater, SettledIn.refl _⟩, fun _ _ _ _ => trivial⟩

theorem storeNew_meta (ownerId : String) (file : File) (context : MediaContext)
    (thumbnailFile : Option File) (sharedWith : Option (List String)) :
    (metaDiscipline env id).Keeps (storeNew env ownerId file context thumbnailFile sharedWith) g w m
      (fun media _ w' m' => OwnedBy env ownerId media.id w' ∧
        (media.id = id → AllShown env id (sharedWith.getD []) w' m')) Whatever := by
  refine storeNew_of_saveMedia (meta_neutrals (by decide)) (fun _ _ _ _ => trivial)
    fun media w' m' _ hmedia => ?_
  exact saveNew_meta hmedia.uuid hmedia.acl

/-- A dedup hit finds a row of the uploader. -/
theorem findDuplicate_meta (ownerId : String) (context : MediaContext) (digest : List (Fin 16)) :
    (metaDiscipline env id).Keeps (findDuplicate ownerId (dedupKey ownerId context digest)) g w m
      (fun r g' w' m' => ∀ existing, r = some existing →
        (∃ i, ReadBy env id i g existing g' w' m') ∧ env.uuidIn ownerId = some existing.ownerId)
      Whatever := by
  refine Discipline.Keeps.bind ((keeps_await_neutral (getDedup_neutral _)).mono
    (fun _ _ _ _ _ h => h) fun _ _ _ _ _ _ => trivial) fun r g' w₁ m₁ hi₁ h => ?_
  obtain ⟨rfl, hget⟩ := h.now hi₁
  split
  · next i hi =>
    obtain ⟨rfl, -⟩ := Option.filter_eq_some_iff.mp hi
    refine (findMedia_meta ownerId i).with_rely.mono (fun r g' w' m' _ h => ?_)
      fun _ _ _ _ _ _ => trivial
    rintro existing rfl
    obtain ⟨⟨hg, hle, hfound⟩, hr⟩ := h
    obtain ⟨hid, hc, hlives⟩ := hfound existing rfl
    refine ⟨⟨i, hg, hle, hid, hc, hlives⟩, ?_⟩
    obtain ⟨w₀, u, m₀, -, hi₀, -, he, -, -, hl⟩ := hget.answered
    obtain ⟨hentry, rfl⟩ := Prod.mk.inj he
    exact owner_of_entry hi₀.stores (Except.ok.inj hentry) hid (hl.media.trans hr.media) hlives
  · refine Discipline.keeps_pure fun u n _ _ existing hex => ?_
    exact absurd hex (by simp)

/-- The entry of a new row of the uploader. -/
theorem setDedup_meta {ownerId i : String} {context : MediaContext} {digest : List (Fin 16)}
    {ttl : ℕ} (hrow : OwnedBy env ownerId i w) :
    (metaDiscipline env id).Keeps (await (.setDedup (dedupKey ownerId context digest) i ttl)) g w m
      (fun _ _ w' m' => MetaLater id w m w' m') Whatever := by
  refine keeps_await fun w' f r u hr hi hm he => ?_
  obtain ⟨row, hget, ho⟩ := hrow.later hr.media
  have hstores := @mediaStores_setDedup env w' hi.stores ownerId i context digest ttl row hget ho
  obtain ⟨rfl, rfl⟩ := Prod.mk.inj he
  refine ⟨hi.later (AclLater.of_eq rfl) hstores fun _ h => h,
    ⟨AclLater.of_eq rfl, SettledIn.refl _⟩, fun u' n hu _ => ?_⟩
  exact ⟨(hr.acl.trans (AclLater.of_eq (by rfl))).trans hu.acl, hr.settled.trans hu.settled⟩

theorem uploadHeld_meta {ownerId : String} {file : File} {context : MediaContext}
    {thumbnailFile : Option File} {sharedWith : Option (List String)}
    (hcall : g.call = .upload ownerId file context thumbnailFile sharedWith)
    (howed : g.owed = ([], 0)) :
    (metaDiscipline env id).Keeps (uploadHeld env ownerId file context thumbnailFile sharedWith) g
      w m (fun dto _ w' m' => dto.media_id = id → AllShown env id (sharedWith.getD []) w' m')
      Whatever := by
  refine uploadHeld_of_checked (meta_neutrals (by decide)) (fun _ _ _ _ => trivial)
    fun w₃ m₃ _ _ => ?_
  refine Discipline.Keeps.bind (findDuplicate_meta ownerId context _)
    fun duplicate g' w₄ m₄ hi₄ h => ?_
  have hresponse {y : MetaWork} {w : World} {m : Multiset String × ℕ} {media : Media}
      (hq : (metaDiscipline env id).Stays
        (fun w' m' => media.id = id → AllShown env id (sharedWith.getD []) w' m') w m) :
      (metaDiscipline env id).Keeps (buildUploadResponse env media) y w m
        (fun dto _ w' m' => dto.media_id = id → AllShown env id (sharedWith.getD []) w' m')
        Whatever := by
    refine (buildUploadResponse_keeps fun c hc => meta_neutral (by rw [hc]; rfl)).mono
      (fun dto g₁ w₁ m₁ hi₁ h => ?_) fun _ _ _ _ _ _ => trivial
    obtain ⟨-, hr, hdto, -⟩ := h
    intro hid
    exact hq w₁ m₁ hr hi₁ (hdto ▸ hid)
  cases duplicate with
  -- a duplicate has been read; what is new in its ACL drops the entry
  | some existing =>
    obtain ⟨⟨i, hread⟩, howner⟩ := h.now hi₄ existing rfl
    have hstays : (metaDiscipline env id).Stays (ReadBy env id i g existing g') w₄ m₄ := by
      intro u n hr _
      exact ⟨hread.account, hread.settled.trans hr.settled, hread.uuid, hread.canonical,
        hread.lives.later hr.media⟩
    exact Discipline.Keeps.bind (mergeSharedWith_meta hcall howed howner hread.canonical hstays)
      fun _ g₁ w₅ m₅ _ hq => hresponse hq
  -- the row is new, so no entry shows an older one
  | none =>
    refine Discipline.Keeps.bind (storeNew_meta ownerId file context thumbnailFile sharedWith)
      fun media g₁ w₅ m₅ hi₅ h₅ => ?_
    refine Discipline.Keeps.bind (setDedup_meta (h₅.now hi₅).1) fun _ g₂ w₆ m₆ hi₆ h₆ => ?_
    refine keeps_after_touch (recordUpload_touches ownerId _) (meta_neutrals (by decide))
      (fun _ _ _ _ _ => trivial) fun _ w₇ m₇ hr₇ _ => ?_
    exact hresponse fun u n hr hi =>
      (h₅ u n (h₆ u n ((metaDiscipline env id).rely_trans hr₇ hr) hi) hi).2

/-- After the soft delete, the DEL settles the delete. -/
theorem removeDeleted_meta {i requesterId : String} {media : Media} {g' : MetaWork}
    (hid : env.uuidIn id = some id) (huuid : env.uuidIn i = some media.id)
    (hname : media.id = id → i = id) (howed : media.id = id → 0 < g'.owed.2)
    (hnone : g'.owed.1 = [])
    (hgone : media.id = id → Gone id w) :
    (metaDiscipline env id).Keeps (removeDeleted i requesterId media) g' w m
      (fun _ _ _ m' => media.id = id → 0 < m'.2) Whatever := by
  -- the DEL of the entry comes while the row is gone, and what follows it leaves the entry alone
  have hrest {w : World} {m : Multiset String × ℕ}
      (hin : media.id = id → Gone id w) :
      (metaDiscipline env id).Keeps (do
        await (.delMeta (metaKey i))
        recordDelete requesterId (.int media.blobSize)) g' w m
        (fun _ _ _ m' => media.id = id → 0 < m'.2) Whatever := by
    refine Discipline.Keeps.bind (delMeta_meta (metaKey i) (fun _ => by simp [hnone]) fun hkey _ => ?_)
      fun _ g₂ w₂ m₂ hi₂ h₂ => ?_
    · obtain rfl := metaKey_injective hkey
      exact hin (Option.some.inj (huuid.symm.trans hid))
    · obtain ⟨-, hle, hg₂⟩ := h₂.now hi₂
      refine keeps_of_touch (recordDelete_touches requesterId _) (meta_neutrals (by decide))
        (fun _ u n hr _ hthis => ?_) fun _ _ _ _ _ => trivial
      have hsettled : 0 < ((metaWork env id).value g₂).2 := by
        rw [hg₂, if_pos (by rw [hname hthis])]
        have hpos := howed hthis
        simp only [metaWork, MetaWork.settle]
        omega
      exact lt_of_lt_of_le hsettled (hle.trans hr.settled).deleted
  refine keeps_after_touch (F := [.bucket]) (touches_await (by simp [Cmd.family]))
    (meta_neutrals (by decide)) (fun _ _ _ _ _ => trivial) fun _ w₁ m₁ hr₁ _ => ?_
  split
  · refine keeps_after_touch (F := [.bucket]) (touches_await (by simp [Cmd.family]))
      (meta_neutrals (by decide)) (fun _ _ _ _ _ => trivial) fun _ w₂ m₂ hr₂ _ => ?_
    exact hrest fun hthis => (hgone hthis).later (hr₁.media.trans hr₂.media)
  · exact hrest fun hthis => (hgone hthis).later hr₁.media

theorem delete_meta {i requesterId : String} (hid : env.uuidIn id = some id)
    (hcall : g.call = .delete i requesterId) (hnothing : g.owed.1 = [])
    (hname : env.uuidIn i = some id → i = id) :
    (metaDiscipline env id).Keeps (delete i requesterId) g w m
      (fun _ _ _ m' => env.uuidIn i = some id → 0 < m'.2) Whatever := by
  refine Discipline.Keeps.bind (findActive_meta i requesterId) fun media g' w₁ m₁ hi₁ h => ?_
  obtain ⟨hg', -, huuid, hc, hlives⟩ := h.now hi₁
  refine keeps_sync_bind (fun _ _ _ _ _ _ => trivial) fun _ howner => ?_
  have ho := enforceOwner_eq_ok.mp howner
  refine Discipline.Keeps.bind ((keeps_await_neutral (meta_neutral rfl)).mono
    (fun _ _ _ _ _ h => h) fun _ _ _ _ _ _ => trivial) fun _ g₂ w₂ m₂ hi₂ h₂ => ?_
  obtain ⟨rfl, ha⟩ := h₂.now hi₂
  have hgone : Gone media.id w₂ := by
    obtain ⟨w₀, u, m₀, hr₀, -, -, he, -, -, hl⟩ := ha.answered
    obtain ⟨row, hrow, hb⟩ := hlives.later hr₀.media
    have hrow' := exec_softDelete he (hb.id_eq ▸ huuid) (hb.id_eq ▸ hrow)
      (hb.ownerId_eq ▸ ho ▸ hc.ownerId)
    exact hb.id_eq ▸ Gone.later ⟨_, hrow', rfl⟩ hl.media
  refine (removeDeleted_meta hid huuid (fun hthis => hname (hthis ▸ huuid)) (fun hthis => ?_) ?_
    fun hthis => ?_).mono (fun _ _ _ m' _ hq hthis => ?_) fun _ _ _ _ _ _ => trivial
  · rw [hg', MetaWork.read, if_neg (not_not.mpr hthis), hcall]
    simp [Call.addsNothing, Call.isDelete]
  · rw [hg', MetaWork.read, hcall]
    split
    · exact hnothing
    · simp [Call.addsNothing, Call.granted, Call.listed, otherUsers]
  · exact hthis ▸ hgone
  · exact hq (Option.some.inj (huuid.symm.trans hthis))

/-- A read fills the cache with the row it has found. -/
theorem getMetadata_meta (hg : g.Reads) (hid : env.uuidIn id = some id) (i requesterId : String) :
    (metaDiscipline env id).Keeps (getMetadata i requesterId) g w m Whatever Whatever := by
  refine Discipline.Keeps.bind ((keeps_await_neutral (getMeta_neutral _)).mono
    (fun _ _ _ _ _ h => h) fun _ _ _ _ _ _ => trivial) fun r g' w₁ m₁ hi₁ h => ?_
  obtain ⟨rfl, -⟩ := h.now hi₁
  cases r with
  | some cached =>
    exact keeps_sync_bind (fun _ _ _ _ _ _ => trivial) fun _ _ =>
      Discipline.keeps_pure fun _ _ _ _ => trivial
  | none =>
    refine Discipline.Keeps.bind ((findReadable_keeps (lookup_neutral hg _ _)).mono
      (fun _ _ _ _ _ h => h) fun _ _ _ _ _ _ => trivial) fun media g₂ w₂ m₂ hi₂ h₂ => ?_
    obtain ⟨rfl, ha, -⟩ := h₂.now hi₂
    refine Discipline.Keeps.bind ((setMeta_meta fun hkey => ?_).mono (fun _ _ _ _ _ h => h)
      fun _ _ _ _ _ h => h) fun _ _ _ _ _ _ => Discipline.keeps_pure fun _ _ _ _ => trivial
    obtain ⟨w₀, u, m₀, -, -, -, he, -, -, hl⟩ := ha.answered
    obtain ⟨rfl, v, -, huuid, hget, -, -⟩ := exec_findMedia he rfl
    obtain rfl := metaKey_injective hkey
    obtain rfl : media.id = i := Option.some.inj (huuid.symm.trans hid)
    obtain ⟨row, hrow, hb⟩ := hl.media _ _ hget
    exact ⟨row, hrow, hb.ownerId_eq.symm⟩

theorem reads_neutrals {F : List Family} (hg : g.Reads)
    (hF : ∀ f ∈ F, f = .mediaLookup ∨ f.quietForMeta = true) :
    ∀ c : Cmd, c.family ∈ F → (metaDiscipline env id).Neutral g c := by
  intro c hc
  rcases hF _ hc with hl | hq
  · cases c <;> simp only [Cmd.family, reduceCtorEq] at hl
    exact lookup_neutral hg _ _
  · exact meta_neutral hq

/-! What a returned call has settled -/

/-- The call has deleted the media. -/
def deletesFor (env : Env) (id : String) : Call → Except Err Reply → Bool
  | .delete i _, .ok _ => env.uuidIn i = some id
  | _, _ => false

structure SettledBy (env : Env) (id : String) (x : Call) (out : Except Err Reply) (w : World)
    (m : Multiset String × ℕ) : Prop where
  shown : AllShown env id (listsFor env id x out) w m
  deleted : deletesFor env id x out = true → 0 < m.2

/-- The id of the media that a call names. -/
def Call.mediaId? : Call → Option String
  | .share id _ _ | .delete id _ | .getMetadata id _ | .getBlob id _ | .getThumbnail id _
  | .streamBlob id _ | .streamThumbnail id _ => some id
  | _ => none

/-- A call that names the media does so in the form Postgres prints. -/
def NamesMedia (env : Env) (id : String) (x : Call) : Prop :=
  ∀ i ∈ x.mediaId?, env.uuidIn i = some id → i = id

instance (env : Env) (id : String) (x : Call) : Decidable (NamesMedia env id x) :=
  inferInstanceAs (Decidable (∀ i ∈ x.mediaId?, _))

theorem settledBy_of_none {x : Call} {out : Except Err Reply} (hl : listsFor env id x out = [])
    (hd : deletesFor env id x out = false) : SettledBy env id x out w m := by
  constructor
  · intro uid huid
    rw [hl] at huid
    exact absurd huid (List.not_mem_nil)
  · rw [hd]
    exact fun h => absurd h (by simp)

theorem start_reads {x : Call} (hl : x.listed = []) (hd : x.isDelete = false)
    (ha : ∀ m, x.addsNothing m = false) : ((metaWork env id).start x).Reads :=
  ⟨hl, hd, rfl, ha⟩

theorem handle_meta (hid : env.uuidIn id = some id) (x : Call) (hname : NamesMedia env id x) :
    (metaDiscipline env id).Keeps (handle env x) ((metaWork env id).start x) w m
      (fun r _ w' m' => SettledBy env id x (.ok r) w' m')
      (fun e _ w' m' => SettledBy env id x (.error e) w' m') := by
  have herr (e : Err) (w : World) (m : Multiset String × ℕ) : SettledBy env id x (.error e) w m :=
    settledBy_of_none (by cases x <;> rfl) (by cases x <;> rfl)
  have hreader {F : List Family} (ht : Touches F (handle env x))
      (hF : ∀ f ∈ F, f = .mediaLookup ∨ f.quietForMeta = true)
      (hreads : ((metaWork env id).start x).Reads)
      (hok : ∀ r w m, SettledBy env id x (.ok r) w m) :
      (metaDiscipline env id).Keeps (handle env x) ((metaWork env id).start x) w m
        (fun r _ w' m' => SettledBy env id x (.ok r) w' m')
        (fun e _ w' m' => SettledBy env id x (.error e) w' m') :=
    keeps_of_touch ht (reads_neutrals hreads hF) (fun r _ _ _ _ => hok r _ _)
      fun e _ _ _ _ => herr e _ _
  have hnone (r : Reply) (w : World) (m : Multiset String × ℕ) (hl : listsFor env id x (.ok r) = [])
      (hd : deletesFor env id x (.ok r) = false) : SettledBy env id x (.ok r) w m :=
    settledBy_of_none hl hd
  cases x with
  | upload ownerId file context thumbnailFile sharedWith =>
    refine Discipline.Keeps.mono (Discipline.Keeps.map (upload_of_held (E := fun _ _ _ => True)
      (fun g c hc => meta_neutral (by rw [hc]; rfl)) (fun _ _ _ _ => trivial)
      (fun _ _ _ _ _ => trivial) fun w' m' _ _ => uploadHeld_meta rfl rfl)
      fun dto g' w' m' _ h => ?_) (fun _ _ _ _ _ h => h) fun e _ w' m' _ _ => herr e w' m'
    refine ⟨?_, fun h => absurd h (by simp [deletesFor])⟩
    show AllShown env id (if dto.media_id = id then sharedWith.getD [] else []) w' m'
    split
    · next hthis => exact h hthis
    · exact fun _ hu => absurd hu (List.not_mem_nil)
  | share i requesterId uids =>
    refine Discipline.Keeps.mono (Discipline.Keeps.map (share_meta rfl rfl (hname i rfl))
      fun r g' w' m' _ h => ?_) (fun _ _ _ _ _ h => h) fun e _ w' m' _ _ => herr e w' m'
    refine ⟨?_, fun h => absurd h (by simp [deletesFor])⟩
    show AllShown env id (if env.uuidIn i = some id then uids else []) w' m'
    split
    · next hthis => exact h hthis
    · exact fun _ hu => absurd hu (List.not_mem_nil)
  | delete i requesterId =>
    refine Discipline.Keeps.mono (Discipline.Keeps.map (delete_meta hid rfl rfl (hname i rfl))
      fun r g' w' m' _ h => ?_) (fun _ _ _ _ _ h => h) fun e _ w' m' _ _ => herr e w' m'
    exact ⟨fun _ hu => absurd hu (List.not_mem_nil), fun h' => h (by simpa [deletesFor] using h')⟩
  | getMetadata i requesterId =>
    refine Discipline.Keeps.mono (Discipline.Keeps.map (P := Whatever) (getMetadata_meta
      (start_reads rfl rfl fun _ => rfl) hid i requesterId) fun _ _ _ _ _ _ => trivial)
      (fun r _ w' m' _ _ => hnone r w' m' rfl rfl) fun e _ w' m' _ _ => herr e w' m'
  | _ =>
    exact hreader (handle_families env _) (by simp [Call.families, Family.quietForMeta])
      (start_reads rfl rfl fun _ => rfl) fun r w m => hnone r w m rfl rfl

/-! What a read answers once a change is settled -/

theorem exec_getMeta {key : String} {r : Except String (Option CachedMeta)}
    (h : env.exec (.getMeta key) w = (r, w')) : w' = w ∧ r = .ok (w.metaCache key) :=
  ⟨(Prod.mk.inj h).2.symm, (Prod.mk.inj h).1.symm⟩

/-- The entry that the first step of a read finds; it does not fail. -/
theorem getMeta_keeps {G M : Type} [AddCommMonoid M] {D : Discipline (service env) G M} {g : G}
    {m : M} {key : String} {E : Err → G → World → M → Prop} (hn : D.Neutral g (.getMeta key)) :
    D.Keeps (await (.getMeta key)) g w m (fun r g' w' m' => g' = g ∧ ∃ w₀ m₀, D.rely w m w₀ m₀ ∧
      D.inv w₀ m₀ ∧ r = w₀.metaCache key ∧ D.rely w₀ m₀ w' m') E := by
  refine (keeps_await_neutral hn).mono (fun r g' w' m' _ h => ?_) fun e g' w' m' _ h => ?_
  · obtain ⟨rfl, ha⟩ := h
    obtain ⟨w₀, u, m₀, hr₀, hi₀, -, he, -, hr₁, hr₂⟩ := ha.answered
    obtain ⟨rfl, hr⟩ := exec_getMeta he
    exact ⟨rfl, u, m₀, hr₀, hi₀, Except.ok.inj hr, D.rely_trans hr₁ hr₂⟩
  · obtain ⟨-, msg, ha⟩ := h
    obtain ⟨w₀, u, m₀, -, -, -, he, -⟩ := ha.answered
    exact absurd (exec_getMeta he).2 (by simp)

/-- A read that starts once a delete is settled answers 404. -/
theorem getMetadata_deleted (hg : g.Reads) (hid : env.uuidIn id = some id) (requesterId : String)
    (hdel : 0 < m.2) :
    (metaDiscipline env id).Keeps (getMetadata id requesterId) g w m (fun _ _ _ _ => False)
      (fun e _ _ _ => e = notFound id ∨ env.uuidIn requesterId = none) := by
  refine Discipline.Keeps.bind (getMeta_keeps (getMeta_neutral _)) fun r g' w₁ m₁ hi₁ h => ?_
  obtain ⟨rfl, w₀, m₀, hr₀, hi₀, rfl, hr₁⟩ := h.now hi₁
  have hdel₀ : 0 < m₀.2 := lt_of_lt_of_le hdel hr₀.settled.deleted
  rw [(hi₀.deleted hdel₀).1]
  refine Discipline.Keeps.bind (Q := fun _ _ _ _ => False) ?_ fun _ _ _ _ hi h => (h.now hi).elim
  refine Discipline.Keeps.bind (Q := fun _ _ _ _ => False) ?_ fun _ _ _ _ hi h => (h.now hi).elim
  refine Discipline.Keeps.bind ((keeps_await_neutral (lookup_neutral hg _ _)).mono
    (fun r g₂ w₂ m₂ _ h => show r = none ∧ env.uuidIn requesterId ≠ none from ?_)
    fun e g₂ w₂ m₂ _ h => ?_) fun r g₂ w₂ m₂ hi₂ h => ?_
  · -- the row is inactive, so the lookup finds nothing
    obtain ⟨rfl, ha⟩ := h
    obtain ⟨w₃, u, m₃, hr₃, hi₃, -, he, -⟩ := ha.answered
    obtain ⟨row, hrow, hact⟩ := (hi₃.deleted (lt_of_lt_of_le hdel₀
      (hr₁.settled.trans hr₃.settled).deleted)).2
    simp only [Env.exec, hid] at he
    split at he
    · next v i hv hi =>
      obtain rfl := Option.some.inj hi
      obtain ⟨hr, -⟩ := Prod.mk.inj he
      refine ⟨?_, by simp [hv]⟩
      rw [← Except.ok.inj hr, hrow]
      simp [hact]
    · exact absurd (Prod.mk.inj he).1 (by simp)
  · obtain ⟨rfl, msg, ha⟩ := h
    obtain ⟨w₃, u, m₃, -, -, -, he, -⟩ := ha.answered
    simp only [Env.exec, hid] at he
    split at he
    · exact absurd (Prod.mk.inj he).1 (by simp)
    · next hno =>
      right
      cases hv : env.uuidIn requesterId with
      | none => rfl
      | some v => exact absurd rfl (hno v id hv)
  · obtain ⟨rfl, -⟩ := h.now hi₂
    exact Discipline.keeps_throw fun _ _ _ _ => Or.inl rfl

/-- The stored ACL admits the user, under the spelling of Postgres. -/
theorem admits_of_grantStored {v : String} (hv : env.uuidIn v = some v)
    (h : GrantStored env id v w) :
    ∃ r, w.media.get id = some r ∧ (r.ownerId = v ∨ v ∈ r.acl) := by
  obtain ⟨r, v', hr, hv', hmem⟩ := h
  obtain rfl : v = v' := Option.some.inj (hv.symm.trans hv')
  rcases hmem with hown | hmem
  · exact ⟨r, hr, Or.inl hown.symm⟩
  · exact ⟨r, hr, Or.inr hmem⟩

/-- Both disciplines together: the stored ACL and the entry. -/
abbrev sharingDiscipline (env : Env) (id : String) :
    Discipline (service env) (Call × MetaWork) (Unit × (Multiset String × ℕ)) :=
  (aclDiscipline env id).prod (metaDiscipline env id)

/-- A read by a user whose grant is stored and settled is not refused. -/
theorem getMetadata_granted {x : Call} {k : Unit} {v : String} (hg : g.Reads)
    (hid : env.uuidIn id = some id) (hv : env.uuidIn v = some v) (hstored : GrantStored env id v w)
    (hshown : Shown id v w m) :
    (sharingDiscipline env id).Keeps (getMetadata id v) (x, g) w (k, m) (fun _ _ _ _ => True)
      (fun _ _ w' _ => ∃ r, w'.media.get id = some r ∧ r.isActive = false) := by
  have hneutral {c : Cmd} (h₁ : ∀ key i ttl, c ≠ .setDedup key i ttl)
      (h₂ : (metaDiscipline env id).Neutral g c) : (sharingDiscipline env id).Neutral (x, g) c :=
    Discipline.Neutral.prod (acl_neutral h₁) h₂
  refine Discipline.Keeps.bind (getMeta_keeps (hneutral (by simp) (getMeta_neutral _)))
    fun r g' w₁ m₁ hi₁ h => ?_
  obtain ⟨rfl, w₀, m₀, hr₀, hi₀, rfl, hr₁⟩ := h.now hi₁
  cases hent : w₀.metaCache (metaKey id) with
  | some cached =>
    have haccess : enforceReadAccess cached.dto.context cached.dto.ownerId cached.sharedWith v =
        .ok () := by
      refine enforceReadAccess_iff.mpr (Or.inr ?_)
      rcases hshown.later hr₀.2 with hset | ⟨row, hrow, hown⟩
      · exact Or.inr (hi₀.2.granted v hset cached hent)
      · obtain ⟨row', hrow', ho⟩ := hi₀.2.entryRow cached hent
        obtain rfl := Option.some.inj (hrow.symm.trans hrow')
        exact Or.inl (ho.trans hown)
    refine keeps_sync_bind (fun e he => absurd (haccess.symm.trans he) (by simp)) fun _ _ => ?_
    exact Discipline.keeps_pure fun _ _ _ _ => trivial
  | none =>
    have hstored₁ : GrantStored env id v w₁ := (hstored.later hr₀.1).later hr₁.1
    refine Discipline.Keeps.bind (Q := fun media g₂ w₂ _ => g₂ = (x, g) ∧ media.id = id ∧
      ∃ r, w₂.media.get id = some r ∧ media.ownerId = r.ownerId) ?_ fun media g₂ w₂ m₂ hi₂ h => ?_
    · refine Discipline.Keeps.bind (Q := fun media g₂ w₂ _ => (g₂ = (x, g) ∧ media.id = id ∧
        ∃ r, w₂.media.get id = some r ∧ media.ownerId = r.ownerId) ∧
        (media.ownerId = v ∨ v ∈ media.acl)) ?_ fun media g₂ w₂ m₂ hi₂ h => ?_
      · refine Discipline.Keeps.bind ((keeps_await_neutral (hneutral (by simp)
          (lookup_neutral hg _ _))).mono (fun _ _ _ _ _ h => h) fun e g₂ w₂ m₂ _ h => ?_)
          fun r g₂ w₂ m₂ hi₂ h => ?_
        · obtain ⟨-, msg, ha⟩ := h
          obtain ⟨w₃, u, m₃, -, -, -, he, -⟩ := ha.answered
          simp only [Env.exec, hid, hv] at he
          exact absurd (Prod.mk.inj he).1 (by simp)
        · obtain ⟨rfl, ha⟩ := h.now hi₂
          obtain ⟨w₃, u, m₃, hr₃, -, -, he, -, hr₄, hr₅⟩ := ha.answered
          obtain ⟨row, hrow, hadm⟩ := admits_of_grantStored hv (hstored₁.later hr₃.1)
          have hsel : rlsSelect v row = true := by
            rcases hadm with hown | hmem
            · simp [rlsSelect, hown]
            · have hin : (row.sharedWith.getD []).contains v = true := by
                simpa [Media.acl] using hmem
              simp only [rlsSelect, hin, Bool.or_true]
          simp only [Env.exec, hid, hv, hrow] at he
          obtain ⟨hr, rfl⟩ := Prod.mk.inj he
          have hfind := Except.ok.inj hr
          have hl : MediaLater w₃ w₂ := hr₄.1.media.trans hr₅.1.media
          obtain ⟨row', hrow', hb⟩ := hl id row hrow
          cases r with
          | none =>
            -- the row is there and visible, so it is inactive
            refine Discipline.keeps_throw fun u n hr hi => ?_
            obtain ⟨row'', hrow'', hb'⟩ := hr.1.media id row' hrow'
            refine ⟨row'', hrow'', ?_⟩
            by_contra hne
            have hact : row.isActive = true := (hb.trans hb').active (by simpa using hne)
            rw [Option.filter_some, if_pos (by simp [hact, hsel])] at hfind
            exact absurd hfind (by simp)
          | some media =>
            obtain ⟨hsome, -⟩ := Option.filter_eq_some_iff.mp hfind
            obtain rfl := Option.some.inj hsome
            refine Discipline.keeps_pure fun u n hr _ => ⟨⟨rfl, media_id hrow, ?_⟩, hadm⟩
            obtain ⟨row'', hrow'', hb'⟩ := hr.1.media id row' hrow'
            exact ⟨row'', hrow'', ((hb.trans hb').ownerId_eq).symm⟩
      · obtain ⟨-, hadm⟩ := h.now hi₂
        refine keeps_sync_bind (fun e he => ?_) fun _ _ =>
          Discipline.keeps_pure fun u n hr hi => (h u n hr hi).1
        exact absurd ((enforceReadAccess_iff.mpr (Or.inr hadm)).symm.trans he) (by simp)
    · obtain ⟨rfl, hmid, row, hrow, ho⟩ := h.now hi₂
      have hfill := @setMeta_meta env id w₂ g m₂.2 (metaKey id)
        ⟨toMetadataDto media, media.sharedWith⟩ META_CACHE_TTL_MS (fun _ _ _ _ => False)
        fun _ => ⟨row, hrow, ho⟩
      refine Discipline.Keeps.bind (Discipline.Keeps.mono (Discipline.Keeps.prod
        (keeps_await_neutral (acl_neutral (by simp))) hfill)
        (fun _ _ _ _ _ _ => trivial) fun e g₃ w₃ m₃ _ h => h.2.elim)
        fun _ _ _ _ _ _ => Discipline.keeps_pure fun _ _ _ _ => trivial

end Bodies

/-! Runs -/

/-- Whether a request has updated the ACL of the media and not yet issued the DEL of its entry. -/
def owesNext (env : Env) (id : String) (owes : Bool) : (c : Cmd) → c.Reply → Bool
  | .updateSharedWith _ i _, .ok _ => owes || env.uuidIn i = some id
  | .delMeta key, .ok _ => owes && key ≠ metaKey id
  | _, _ => owes

def owesEntry (env : Env) (id : String) (log : ServiceLog) : Bool :=
  log.foldl (fun owes e => owesNext env id owes e.1 e.2) false

/-- The DEL of an ACL that has been updated is still to come. -/
def OwesEntry (env : Env) (id : String) (p : ServicePool) : Prop :=
  ∃ t ∈ p.threads, owesEntry env id t.log = true

instance (env : Env) (id : String) (p : ServicePool) : Decidable (OwesEntry env id p) :=
  inferInstanceAs (Decidable (∃ t ∈ p.threads, _))

/-- The media is active, and its ACL is the one that a request has found last. -/
def MediaAsRead (id : String) (w : World) (log : ServiceLog) : Prop :=
  ∀ media ∈ lastMedia log, ∃ m ∈ w.media.get id, m.isActive = true ∧ m.sharedWith = media.sharedWith

instance (id : String) (w : World) (log : ServiceLog) : Decidable (MediaAsRead id w log) :=
  inferInstanceAs (Decidable (∀ media ∈ lastMedia log, _))

/-- The call lists users, and the ACL holds them all. -/
def Call.FindsListed (x : Call) (m : Media) : Prop :=
  otherUsers m.ownerId x.listed ≠ [] ∧ ∀ uid ∈ otherUsers m.ownerId x.listed, uid ∈ m.acl

instance (x : Call) (m : Media) : Decidable (x.FindsListed m) :=
  inferInstanceAs (Decidable (_ ∧ _))

/-- A fill of the media's entry comes before any write of the row that follows its lookup. -/
def FillsInTime (id : String) (w : World) (log : ServiceLog) (c : Cmd) : Prop :=
  c.metaFill?.map Prod.fst = some (metaKey id) → MediaAsRead id w log

instance (id : String) (w : World) (log : ServiceLog) (c : Cmd) :
    Decidable (FillsInTime id w log c) :=
  inferInstanceAs (Decidable (_ → _))

/-- A call that finds all its users in the ACL does so while no DEL is owed. -/
def RepeatsInTime (env : Env) (id : String) (p : ServicePool) (x : Call) (c : Cmd) : Prop :=
  ∀ i ∈ c.lookedUp?, env.uuidIn i = some id → ∀ m ∈ p.world.media.get id, m.isActive = true →
    x.FindsListed m → ¬ OwesEntry env id p

instance (env : Env) (id : String) (p : ServicePool) (x : Call) (c : Cmd) :
    Decidable (RepeatsInTime env id p x c) :=
  inferInstanceAs (Decidable (∀ i ∈ c.lookedUp?, _))

/-- Fills and calls without a change come in time, and the media is named in one way. -/
def CacheAllowed (env : Env) (id : String) (p : ServicePool) : Label Call Act → Prop
  | .call x => NamesMedia env id x
  | .step i => ∀ t ∈ p.threads[i]?, ∀ c ∈ p.nextCmd i,
      FillsInTime id p.world t.log c ∧ RepeatsInTime env id p t.call c
  | .act _ => True

instance (env : Env) (id : String) (p : ServicePool) (l : Label Call Act) :
    Decidable (CacheAllowed env id p l) :=
  match l with
  | .call x => inferInstanceAs (Decidable (NamesMedia env id x))
  | .step i => inferInstanceAs (Decidable (∀ t ∈ p.threads[i]?, _))
  | .act _ => inferInstanceAs (Decidable True)

/-- What the steps then respect. -/
def CacheKept (env : Env) (id : String) (p : ServicePool) : Label Call Act → Prop
  | .call x => NamesMedia env id x
  | .step i => ∀ t ∈ p.threads[i]?, ∀ c ∈ p.nextCmd i, MetaStep env id p.world t.call c
  | .act _ => True

/-- The entry shows the ACL that is stored, or a DEL is owed. -/
def EntryShown (env : Env) (id : String) (p : ServicePool) : Prop :=
  ∀ e, p.world.metaCache (metaKey id) = some e → ∃ r, p.world.media.get id = some r ∧
    (OwesEntry env id p ∨ e.sharedWith = r.sharedWith)

section Runs
variable {env : Env} {id : String}

theorem metaWork_call (t : ServiceThread) : ((metaWork env id).of t).call = t.call := by
  have hread (g : MetaWork) (r : Option Media) : (g.read env id r).call = g.call := by
    cases r with
    | none => rfl
    | some media =>
      simp only [MetaWork.read]
      split
      · rfl
      · split <;> rfl
  have hnext (g : MetaWork) (c : Cmd) (r : c.Reply) : (g.next env id c r).call = g.call := by
    unfold MetaWork.next
    split
    · exact hread g _
    · split <;> rfl
    · split <;> rfl
    · rfl
  suffices h : ∀ (log : List (Event Cmd Cmd.Reply)) (g : MetaWork),
      (log.foldl (fun g e => (metaWork env id).next g e.1 e.2) g).call = g.call from h t.log _
  intro log
  induction log with
  | nil => exact fun _ => rfl
  | cons e log ih => exact fun g => (ih _).trans (hnext g e.1 e.2)

theorem owesEntry_concat {log : ServiceLog} {c : Cmd} {r : c.Reply} :
    owesEntry env id (log ++ [⟨c, r⟩]) = owesNext env id (owesEntry env id log) c r := by
  rw [owesEntry, List.foldl_append]
  rfl

/-- An UPDATE that has changed an ACL owes the DEL. -/
theorem owesNext_of_update {user i : String} {l s : Option (List String)} {v : String} {w : World}
    {owes : Bool} (hu : env.uuidIn user = some v) (hi : env.uuidIn i = some id)
    (hs : env.uuidArrayIn l = some s) : owesNext env id owes (.updateSharedWith user i l)
      (env.exec (.updateSharedWith user i l) w).1 = true := by
  simp [Env.exec, owesNext, hu, hi, hs]

/-- Only the DEL of the entry pays. -/
theorem owesNext_of_owes {c : Cmd} {r : c.Reply} (hc : c ≠ .delMeta (metaKey id)) :
    owesNext env id true c r = true := by
  unfold owesNext
  split
  · rfl
  · next key v =>
    have hkey : key ≠ metaKey id := fun h => hc (h ▸ rfl)
    simpa using hkey
  · rfl

/-- One command of a thread: what it leaves of the entry, and what is owed then. -/
theorem entryShown_step {p : ServicePool} {pre post new : List ServiceThread} {x : Call}
    {log : ServiceLog} {c : Cmd} {k : c.Reply → Prog Cmd Cmd.Reply (Except Err Reply)}
    (hp : EntryShown env id p) (hts : p.threads = pre ++ ⟨x, log, .step c k⟩ :: post)
    (hfill : ∀ f ∈ c.metaFill?, f.1 = metaKey id → ShowsMedia id p.world f.2) :
    EntryShown env id ⟨(env.exec c p.world).2, pre ++ ⟨x, log ++ [⟨c, (env.exec c p.world).1⟩],
      k (env.exec c p.world).1⟩ :: post ++ new⟩ := by
  intro e he
  -- an entry that was there before, with the row that has followed it
  have hkept (he₀ : p.world.metaCache (metaKey id) = some e) (hc : c ≠ .delMeta (metaKey id)) :
      ∃ r, (env.exec c p.world).2.media.get id = some r ∧ ((∃ t ∈ pre ++ ⟨x, log ++
        [⟨c, (env.exec c p.world).1⟩], k (env.exec c p.world).1⟩ :: post ++ new,
          owesEntry env id t.log = true) ∨ e.sharedWith = r.sharedWith) := by
    obtain ⟨r, hr, hor⟩ := hp e he₀
    obtain ⟨r', hr', -⟩ := @mediaLater_exec env c p.world id r hr
    refine ⟨r', hr', ?_⟩
    rcases hor with ⟨t, ht, howes⟩ | hsame
    · left
      rw [hts] at ht
      rcases List.mem_append.mp ht with ht | ht
      · exact ⟨t, by simp [ht], howes⟩
      rcases List.mem_cons.mp ht with rfl | ht
      · refine ⟨_, List.mem_append_left _ (List.mem_append_right _ List.mem_cons_self), ?_⟩
        rw [owesEntry_concat, howes]
        exact owesNext_of_owes hc
      · exact ⟨t, by simp [ht], howes⟩
    · rcases sharedWith_exec hr hr' with hs | ⟨user, i, l, rfl, hu, hi, hs⟩
      · exact Or.inr (hsame.trans hs.symm)
      · refine Or.inl ⟨_, List.mem_append_left _ (List.mem_append_right _ List.mem_cons_self), ?_⟩
        rw [owesEntry_concat]
        exact owesNext_of_update hu hi hs
  by_cases hset : ∃ key entry ttl, c = .setMeta key entry ttl
  · obtain ⟨key, entry, ttl, rfl⟩ := hset
    by_cases hk : key = metaKey id
    · have hent : entry = e := by simpa [Env.exec, hk] using he
      obtain ⟨r, hr, -, hsame⟩ := hfill (key, entry) rfl hk
      exact ⟨r, hr, Or.inr (hent ▸ hsame)⟩
    · exact hkept (by simpa [Env.exec, Function.update_of_ne (Ne.symm hk)] using he) (by simp)
  · by_cases hdel : c = .delMeta (metaKey id)
    · subst hdel
      exact absurd he (by simp [Env.exec])
    · exact hkept (metaCache_before_exec (fun key e ttl hc => hset ⟨key, e, ttl, hc⟩) he) hdel

/-- While fills show the media, an entry that does not is about to be deleted. -/
theorem entryShown_of_runs {p : ServicePool} (h : (service env).Runs
    (fun p l => AclKept env id p l ∧ CacheKept env id p l) ⟨World.empty, []⟩ p) :
    EntryShown env id p := by
  induction h with
  | refl => exact fun e he => absurd he (by simp [World.empty])
  | tail _ hok hn ih =>
    rcases System.next_cases hn with ⟨x, -, rfl⟩ | ⟨a, -, rfl⟩ |
      ⟨i, pre, post, x, log, c, k, rfl, hts, hlen, rfl⟩
    · intro e he
      obtain ⟨r, hr, ⟨t, ht, ho⟩ | hs⟩ := ih e he
      · exact ⟨r, hr, .inl ⟨t, List.mem_append_left _ ht, ho⟩⟩
      · exact ⟨r, hr, .inr hs⟩
    · intro e he
      obtain ⟨r, hr, hor⟩ := ih e (act_metaCache he)
      exact ⟨r, (act_media a _).symm ▸ hr, hor⟩
    · have hat : (pre ++ (⟨x, log, .step c k⟩ : ServiceThread) :: post)[i]? =
          some ⟨x, log, .step c k⟩ := by
        simp [← hlen]
      exact entryShown_step ih hts (hok.2 _ (hts ▸ hat) c (by simp [Pool.nextCmd, hts, hat])).fill

/-- What a request writes is what it has found, so steps in time respect what is settled. -/
theorem kept_of_allowed {p : ServicePool} (h : (service env).Runs
    (fun p l => AclKept env id p l ∧ CacheKept env id p l) ⟨World.empty, []⟩ p)
    {l : Label Call Act} (hl : AclAllowed env id p l ∧ CacheAllowed env id p l) :
    AclKept env id p l ∧ CacheKept env id p l := by
  have hacl := aclKept_of_allowed (mediaStores_empty env).canonical h hl.1
  refine ⟨hacl, ?_⟩
  cases l with
  | call x => exact hl.2
  | act a => trivial
  | step i =>
    intro t ht c hc
    obtain ⟨hfill, hrepeat⟩ := hl.2 t ht c hc
    obtain ⟨hkeeps, hlen⟩ := hacl t ht c hc
    refine ⟨fun f hf hkey => ?_, fun i' hi hid m hm hactive hadds e he v hv => ?_, hkeeps, hlen⟩
    · obtain ⟨key, entry⟩ := f
      obtain ⟨ttl, rfl⟩ : ∃ ttl, c = .setMeta key entry ttl := by
        cases c <;> simp only [Cmd.metaFill?, Option.mem_def, reduceCtorEq, Option.some.injEq,
          Prod.mk.injEq] at hf
        case setMeta key' entry' ttl => exact ⟨ttl, by rw [hf.1, hf.2]⟩
      obtain rfl : key = metaKey id := hkey
      obtain ⟨media, hlast, hentry⟩ := (writesBack_of_runs h ht hc).entry _ _ _ rfl
      obtain ⟨m, hm, hactive, hsame⟩ := hfill rfl media hlast
      exact ⟨m, hm, hactive, by rw [hentry, hsame]⟩
    · have hlisted := listed_of_addsNothing (hlen i' hi hid m hm hactive) hadds
      have hsome : otherUsers m.ownerId t.call.listed ≠ [] := by
        intro hnil
        simp [Call.granted, hnil] at hv
      obtain ⟨r, hr, hor⟩ := entryShown_of_runs h e he
      have hsame := hor.resolve_left (hrepeat i' hi hid m hm hactive ⟨hsome, hlisted⟩)
      obtain rfl := Option.some.inj (hr.symm.trans hm)
      rw [hsame]
      exact granted_of_addsNothing (canonical_of_runs (mediaStores_empty env).canonical h _ _ hr)
        (hlen i' hi hid _ hm hactive) hadds v hv

theorem kept_runs {p q : ServicePool} (hp : (service env).Runs
    (fun p l => AclKept env id p l ∧ CacheKept env id p l) ⟨World.empty, []⟩ p)
    (hq : (service env).Runs (fun p l => AclAllowed env id p l ∧ CacheAllowed env id p l) p q) :
    (service env).Runs (fun p l => AclKept env id p l ∧ CacheKept env id p l) p q :=
  hq.strengthen fun _ _ hr hl => kept_of_allowed (hp.trans hr) hl

theorem metaInv_act (a : Act) {w : World} {m : Multiset String × ℕ} (hi : MetaInv env id w m) :
    MetaInv env id (a.apply w) m := by
  exact hi.later (AclLater.of_eq (act_media a w)) (mediaStores_act a hi.stores) fun e he =>
    act_metaCache he

theorem callable_meta (hid : env.uuidIn id = some id) {x : Call} (hname : NamesMedia env id x) :
    (metaDiscipline env id).Callable (fun x out _ w m => SettledBy env id x out w m) x := by
  refine ⟨rfl, fun w m _ => (handle_meta hid x hname).upholds.mono fun r g w m _ h => ?_⟩
  cases r <;> exact h

theorem meta_sound (hid : env.uuidIn id = some id) :
    (metaDiscipline env id).Sound (fun x out _ w m => SettledBy env id x out w m)
      (CacheKept env id) where
  call p x hok := callable_meta hid hok
  fork c x hx := by
    cases c <;> simp only [service, List.not_mem_nil, List.mem_singleton] at hx
    subst hx
    exact callable_meta hid fun i hi => absurd hi (by simp [Call.mediaId?])
  act p a m _ hi := ⟨metaInv_act a hi, ⟨AclLater.of_eq (act_media a p.world), SettledIn.refl m⟩⟩
  step p i x log c k hok ht := by
    show MetaStep env id p.world ((metaWork env id).of _).call c
    rw [metaWork_call]
    exact hok ⟨x, log, .step c k⟩ (by simp [ht]) c (by simp [Pool.nextCmd, ht])

/-- The thread has returned from a delete of the media. -/
def Deleted (env : Env) (id : String) (t : ServiceThread) : Prop :=
  t.outcome.any (deletesFor env id t.call) = true

/-- The thread has returned from a share or an upload that lists the user for the media. -/
def Listed (env : Env) (id user : String) (t : ServiceThread) : Prop :=
  ∃ a ∈ t.outcome, ∃ uid ∈ listsFor env id t.call a, uid ≠ "" ∧ env.uuidIn uid = some user

instance (env : Env) (id : String) (t : ServiceThread) : Decidable (Deleted env id t) :=
  inferInstanceAs (Decidable (_ = _))

instance (env : Env) (id user : String) (t : ServiceThread) : Decidable (Listed env id user t) :=
  inferInstanceAs (Decidable (∃ a ∈ t.outcome, _))

/-- A pool in which one more read has just arrived. -/
def withRead (env : Env) (id requesterId : String) (p : ServicePool) : ServicePool :=
  { p with threads := p.threads ++ [(service env).start (.getMetadata id requesterId)] }

theorem sharing_empty : (sharingDiscipline env id).inv World.empty 0 := by
  refine ⟨mediaStores_empty env, mediaStores_empty env, ?_, ?_, ?_, ?_⟩
  · exact fun e he => absurd he (by simp [World.empty])
  · exact fun v hv => absurd hv (Multiset.notMem_zero v)
  · exact fun v hv => absurd hv (Multiset.notMem_zero v)
  · exact fun hn => absurd hn (by simp)

theorem read_kept (p : ServicePool) (requesterId : String) :
    AclKept env id p (.call (.getMetadata id requesterId)) ∧
      CacheKept env id p (.call (.getMetadata id requesterId)) := by
  refine ⟨trivial, fun i hi _ => ?_⟩
  exact (Option.some.inj hi).symm

/-- What a read in thread `i` has to answer once it ends, watched through every run. -/
theorem read_outcome (hid : env.uuidIn id = some id) {p q : ServicePool} {requesterId : String}
    {Q : Reply → Call × MetaWork → World → Unit × (Multiset String × ℕ) → Prop}
    {E : Err → Call × MetaWork → World → Unit × (Multiset String × ℕ) → Prop}
    (hp : (service env).Runs (fun p l => AclKept env id p l ∧ CacheKept env id p l)
      ⟨World.empty, []⟩ p)
    (hq : (service env).Runs (fun p l => AclKept env id p l ∧ CacheKept env id p l)
      (withRead env id requesterId p) q)
    {t : ServiceThread} (ht : q.threads[p.threads.length]? = some t) {a : Except Err Reply}
    (ha : t.outcome = some a)
    (h : (sharingDiscipline env id).Keeps (handle env (.getMetadata id requesterId))
      ((sharingDiscipline env id).start (.getMetadata id requesterId)) p.world
      ((sharingDiscipline env id).total p) Q E) :
    match a with
    | .ok r => ∃ g m, Q r g q.world m
    | .error e => ∃ g m, E e g q.world m := by
  have hs := (acl_sound env id).prod (meta_sound hid)
  have hholds := ((Discipline.holds_of_empty sharing_empty).runs hs hp).1
  have hnext : (service env).next p (.call (.getMetadata id requesterId)) =
      some (withRead env id requesterId p) := rfl
  have hholds' := (hholds.step hs (read_kept p requesterId) hnext).1
  have hwatch := ((Discipline.watch_of_call rfl hnext h.upholds).runs hs hholds' hq)
  have hend := hwatch.outcome (hholds'.runs hs hq).1 ht ha
  cases a with
  | ok r => exact ⟨_, _, hend⟩
  | error e => exact ⟨_, _, hend⟩

/-- The state of a run, as the two disciplines see it. -/
theorem sharing_holds (hid : env.uuidIn id = some id) {p : ServicePool}
    (hp : (service env).Runs (fun p l => AclKept env id p l ∧ CacheKept env id p l)
      ⟨World.empty, []⟩ p) {t : ServiceThread} (ht : t ∈ p.threads) {a : Except Err Reply}
    (ha : t.outcome = some a) :
    (∀ uid ∈ listsFor env id t.call a, uid ≠ "" → GrantStored env id uid p.world) ∧
      SettledBy env id t.call a p.world ((sharingDiscipline env id).total p).2 := by
  have hs := (acl_sound env id).prod (meta_sound hid)
  exact (((Discipline.holds_of_empty sharing_empty).runs hs hp).1).outcome ht ha

end Runs

/-- As long as no write of the row comes in between the lookup of a request and its own write or fill,
and no call relies on a change whose DEL is still owed, a read that starts after a delete has returned
answers 404, and one that starts after a share or an upload listing its user has returned is answered,
unless the media has been deleted. -/
theorem getMetadata_current (env : Env) (id : String) (hid : env.uuidIn id = some id)
    (p q : ServicePool) (t t' : ServiceThread) (requesterId : String) (a : Except Err Reply)
    (hp : (service env).Runs (fun p l => AclAllowed env id p l ∧ CacheAllowed env id p l)
      ⟨World.empty, []⟩ p) (ht : t ∈ p.threads)
    (hq : (service env).Runs (fun p l => AclAllowed env id p l ∧ CacheAllowed env id p l)
      (withRead env id requesterId p) q)
    (ht' : q.threads[p.threads.length]? = some t') (ha : t'.outcome = some a) :
    (Deleted env id t → a = .error (notFound id) ∨ env.uuidIn requesterId = none) ∧
    (Listed env id requesterId t → (∃ r, a = .ok r) ∨
      ∃ m, q.world.media.get id = some m ∧ m.isActive = false) := by
  have hreads : ((metaWork env id).start (.getMetadata id requesterId)).Reads :=
    start_reads rfl rfl fun _ => rfl
  replace hp := kept_runs (.refl _) hp
  replace hq := kept_runs (hp.tail (read_kept p requesterId) rfl) hq
  constructor
  · -- what the delete has settled is still so when the read starts
    intro hdel
    obtain ⟨out, hout, hdel⟩ := (Option.any_eq_true _ _).mp hdel
    obtain ⟨-, hsettled⟩ := sharing_holds hid hp ht hout
    have hacl := @handle_keeps_acl env id p.world ((sharingDiscipline env id).total p).1
      (.getMetadata id requesterId)
    have hmeta := (getMetadata_deleted (w := p.world) hreads hid requesterId
      (hsettled.deleted hdel)).map (f := Reply.metadata) (P := fun _ _ _ _ => False)
      fun _ _ _ _ _ h => h
    have hend := read_outcome hid hp hq ht' ha (hacl.prod hmeta)
    cases a with
    | ok r =>
      obtain ⟨-, -, -, h⟩ := hend
      exact h.elim
    | error e =>
      obtain ⟨-, -, -, h⟩ := hend
      exact h.imp (fun he => by rw [he]) fun h => h
  · -- the grant is in the row, and no entry is without it
    rintro ⟨out, hout, uid, huid, hne, huser⟩
    obtain ⟨hstored, hsettled⟩ := sharing_holds hid hp ht hout
    have hv := env.uuidIn_canonical uid requesterId huser
    have hgrant : GrantStored env id requesterId p.world := by
      obtain ⟨m, v, hm, huv, hmem⟩ := hstored uid huid hne
      obtain rfl := Option.some.inj (huser.symm.trans huv)
      exact ⟨m, requesterId, hm, hv, hmem⟩
    have hread := (getMetadata_granted (x := .getMetadata id requesterId) (k := ()) hreads hid hv
      hgrant (hsettled.shown uid huid hne requesterId huser)).map (f := Reply.metadata)
        (P := fun _ _ _ _ => True) fun _ _ _ _ _ _ => trivial
    have hend := read_outcome hid hp hq ht' ha hread
    cases a with
    | ok r => exact Or.inl ⟨r, rfl⟩
    | error e =>
      obtain ⟨-, -, h⟩ := hend
      exact Or.inr h

/-- The conditions of the theorem, for the media of the runs below. -/
abbrev exampleAllowed (p : ServicePool) (l : Label Call Act) : Prop :=
  AclAllowed exampleEnv (exampleId 1) p l ∧ CacheAllowed exampleEnv (exampleId 1) p l

/-- The metadata are read and cached after the share. -/
def shareThenRead : List (Label Call Act) :=
  uploadThenShare ++ .call (.getMetadata (exampleId 1) (exampleId 7)) :: List.replicate 3 (.step 3)

/-- And then the media is deleted. -/
def readThenDelete : List (Label Call Act) :=
  shareThenRead ++ .call (.delete (exampleId 1) (exampleId 7)) :: List.replicate 6 (.step 4)

/-- User 8 reads the cached metadata after the share, and is answered 404 after the delete. -/
theorem getMetadata_current_after_both :
    (∃ p q t' a, (service exampleEnv).play exampleAllowed ⟨World.empty, []⟩ shareThenRead = some p ∧
      (p.world.metaCache (metaKey (exampleId 1))).isSome = true ∧
      (service exampleEnv).play exampleAllowed (withRead exampleEnv (exampleId 1) (exampleId 8) p)
        [.step 4] = some q ∧
      q.threads[p.threads.length]? = some t' ∧ t'.outcome = some a ∧
      ((∃ r, a = .ok r) ∨
        ∃ m, q.world.media.get (exampleId 1) = some m ∧ m.isActive = false)) ∧
    ∃ p q t' a, (service exampleEnv).play exampleAllowed ⟨World.empty, []⟩ readThenDelete = some p ∧
      (service exampleEnv).play exampleAllowed (withRead exampleEnv (exampleId 1) (exampleId 8) p)
        [.step 5, .step 5] = some q ∧
      q.threads[p.threads.length]? = some t' ∧ t'.outcome = some a ∧
      (a = .error (notFound (exampleId 1)) ∨ exampleEnv.uuidIn (exampleId 8) = none) := by
  constructor
  · have hplay : (((service exampleEnv).play exampleAllowed ⟨World.empty, []⟩ shareThenRead).filter
        fun p => (p.world.metaCache (metaKey (exampleId 1))).isSome = true ∧
          (∃ t ∈ p.threads, Listed exampleEnv (exampleId 1) (exampleId 8) t) ∧
          ((service exampleEnv).play exampleAllowed
            (withRead exampleEnv (exampleId 1) (exampleId 8) p) [.step 4]).any
              fun q => q.threads[p.threads.length]?.any fun t' => t'.outcome.isSome).isSome = true := by
      decide +kernel
    obtain ⟨p, hp⟩ := Option.isSome_iff_exists.mp hplay
    simp only [Option.filter_eq_some_iff, decide_eq_true_eq, Option.any_eq_true] at hp
    obtain ⟨hp, hcached, ⟨t, ht, hlisted⟩, q, hq, t', ht', hend⟩ := hp
    obtain ⟨a, ha⟩ := Option.isSome_iff_exists.mp hend
    exact ⟨p, q, t', a, hp, hcached, hq, ht', ha, (getMetadata_current exampleEnv (exampleId 1)
      (exampleId_canonical 1) p q t t' (exampleId 8) a (System.runs_of_play hp) ht
      (System.runs_of_play hq) ht' ha).2 hlisted⟩
  · have hplay : (((service exampleEnv).play exampleAllowed ⟨World.empty, []⟩ readThenDelete).filter
        fun p => (∃ t ∈ p.threads, Deleted exampleEnv (exampleId 1) t) ∧
          ((service exampleEnv).play exampleAllowed
            (withRead exampleEnv (exampleId 1) (exampleId 8) p) [.step 5, .step 5]).any
              fun q => q.threads[p.threads.length]?.any fun t' => t'.outcome.isSome).isSome = true := by
      decide +kernel
    obtain ⟨p, hp⟩ := Option.isSome_iff_exists.mp hplay
    simp only [Option.filter_eq_some_iff, decide_eq_true_eq, Option.any_eq_true] at hp
    obtain ⟨hp, ⟨t, ht, hdel⟩, q, hq, t', ht', hend⟩ := hp
    obtain ⟨a, ha⟩ := Option.isSome_iff_exists.mp hend
    exact ⟨p, q, t', a, hp, hq, ht', ha, (getMetadata_current exampleEnv (exampleId 1)
      (exampleId_canonical 1) p q t t' (exampleId 8) a (System.runs_of_play hp) ht
      (System.runs_of_play hq) ht' ha).1 hdel⟩

/-! A fill can come late -/

/-- Only calls about metadata and its writers arrive, and they name the media in one way. -/
def metaRequest (env : Env) (id : String) : Label Call Act → Prop
  | .call x => NamesMedia env id x ∧
    (x matches .getMetadata _ _ | .share _ _ _ | .upload _ _ _ _ _ | .delete _ _) = true
  | _ => True

instance (env : Env) (id : String) (l : Label Call Act) : Decidable (metaRequest env id l) :=
  match l with
  | .call _ => inferInstanceAs (Decidable (_ ∧ _))
  | .step _ | .act _ => inferInstanceAs (Decidable True)

/-- A read has found the row; the media is deleted and its DEL issued; then comes the fill. -/
def lateFill : List (Label Call Act) :=
  .call sharedUpload :: List.replicate 20 (.step 0) ++
    [.call (.getMetadata (exampleId 1) (exampleId 7)), .step 2, .step 2,
      .call (.delete (exampleId 1) (exampleId 7)), .step 3, .step 3, .step 3, .step 3, .step 3,
      .step 3, .step 2]

/-- The metadata of a media can be answered after its delete has returned. -/
theorem getMetadata_not_current :
    ¬ ∀ (env : Env) (id : String) (p q : ServicePool) (t t' : ServiceThread) (requesterId : String)
      (a : Except Err Reply), env.uuidIn id = some id → env.uuidIn requesterId = some requesterId →
      (service env).Runs (fun _ l => metaRequest env id l) ⟨World.empty, []⟩ p → t ∈ p.threads →
      (service env).Runs (fun _ l => metaRequest env id l) (withRead env id requesterId p) q →
      q.threads[p.threads.length]? = some t' → t'.outcome = some a →
      (Deleted env id t → a = .error (notFound id)) ∧
      (Listed env id requesterId t → (∃ r, a = .ok r) ∨
        ∃ m, q.world.media.get id = some m ∧ m.isActive = false) := by
  intro hall
  have hplay : (((service exampleEnv).play (fun _ l => metaRequest exampleEnv (exampleId 1) l)
      ⟨World.empty, []⟩ lateFill).filter fun p =>
        (∃ t ∈ p.threads, Deleted exampleEnv (exampleId 1) t) ∧
        ((service exampleEnv).play (fun _ l => metaRequest exampleEnv (exampleId 1) l)
          (withRead exampleEnv (exampleId 1) (exampleId 7) p) [.step 4]).any fun q =>
            q.threads[p.threads.length]?.any fun t' => t'.outcome.any Except.isOk).isSome = true := by
    decide +kernel
  obtain ⟨p, hp⟩ := Option.isSome_iff_exists.mp hplay
  simp only [Option.filter_eq_some_iff, decide_eq_true_eq, Option.any_eq_true] at hp
  obtain ⟨hp, ⟨t, ht, hdel⟩, q, hq, t', ht', a, ha, hok⟩ := hp
  have h := (hall exampleEnv (exampleId 1) p q t t' (exampleId 7) a (exampleId_canonical 1)
    (exampleId_canonical 7) (System.runs_of_play hp) ht (System.runs_of_play hq) ht' ha).1 hdel
  rw [h] at hok
  exact absurd hok (by decide)

end WhisprMedia