import WhisprMedia.WriteBacks

/-! The cached quota of a user against the row. An update of the row owes a DEL of the entry;
while nothing is owed, the entry shows the row, as long as no change of the row comes in between the
SELECT of a read and its SET. -/
namespace WhisprMedia
open Awaiting MediaService QuotaService

/-- The entry decodes to the current values of the row. -/
def Decodes (e : CachedQuota) (q : UserQuota) : Prop :=
  ∃ q', ofCached e = .ok q' ∧ q'.storageUsed = q.storageUsed ∧ q'.storageLimit = q.storageLimit ∧
    q'.filesCount = q.filesCount ∧ q'.filesLimit = q.filesLimit ∧
    q'.dailyUploads = q.dailyUploads ∧ q'.dailyUploadLimit = q.dailyUploadLimit

instance (e : CachedQuota) (q : UserQuota) : Decidable (Decodes e q) :=
  match h : ofCached e with
  | .ok q' => decidable_of_iff (q'.storageUsed = q.storageUsed ∧ q'.storageLimit = q.storageLimit ∧
      q'.filesCount = q.filesCount ∧ q'.filesLimit = q.filesLimit ∧
      q'.dailyUploads = q.dailyUploads ∧ q'.dailyUploadLimit = q.dailyUploadLimit)
      (by simp [Decodes, h])
  | .error _ => isFalse (by simp [Decodes, h])

/-- The entry shows the user's row. -/
def ShowsRow (userId : String) (w : World) (e : CachedQuota) : Prop :=
  ∃ q, w.quotas.get userId = some q ∧ Decodes e q

instance (userId : String) (w : World) (e : CachedQuota) : Decidable (ShowsRow userId w e) :=
  match h : w.quotas.get userId with
  | some q => decidable_of_iff (Decodes e q) (by simp [ShowsRow, h])
  | none => isFalse (by simp [ShowsRow, h])

/-- The call works on the quota of the user; the reset works on every user's. -/
def Concerns (env : Env) (userId : String) (x : Call) : Prop :=
  x = .resetDailyUploads ∨ x.quotaUser?.bind env.uuidIn = some userId

instance (env : Env) (userId : String) (x : Call) : Decidable (Concerns env userId x) :=
  inferInstanceAs (Decidable (_ ∨ _))

/-- The user's row whose values a command changes. -/
def Cmd.quotaUser? : Cmd → Option String
  | .chargeQuota userId _ | .releaseQuota userId _ => some userId
  | _ => none

/-- Whether a request has changed the row of the user and owes the DEL of the entry; `none` for
a request that does not concern the user. -/
def quotaDebt (env : Env) (userId : String) : Account Cmd Cmd.Reply Call (Option Bool) ℕ where
  start x := if Concerns env userId x then some false else none
  next g c r := g.map fun owes =>
    match c, r with
    | .chargeQuota s _, .ok affected => owes || (env.uuidIn s = some userId && (affected : ℕ) ≠ 0)
    | .releaseQuota s _, .ok affected => owes || (env.uuidIn s = some userId && (affected : ℕ) ≠ 0)
    | .resetDailyUploads, .ok userIds => owes || (userIds : List String).contains userId
    | .delQuota key, .ok _ => owes && key ≠ cacheKey userId
    | _, _ => owes
  value g := if g = some true then 1 else 0

/-- The entry of the user shows the row unless a DEL is owed. -/
def QuotaEntryInv (userId : String) (w : World) (m : ℕ) : Prop :=
  ∀ e, w.quotaCache (cacheKey userId) = some e → 0 < m ∨ ShowsRow userId w e

def quotaCacheDiscipline (env : Env) (userId : String) :
    Discipline (service env) (Option Bool) ℕ where
  toAccount := quotaDebt env userId
  inv := QuotaEntryInv userId
  rely _ _ _ _ := True
  may w m _ c := ∀ e ttl, c = .setQuota (cacheKey userId) e ttl → 0 < m ∨ ShowsRow userId w e
  rely_refl _ _ := trivial
  rely_trans _ _ := trivial

section Commands
variable {env : Env} {userId : String} {c : Cmd} {w : World}

/-- The command may change the values of the user's row. -/
def WritesQuota (env : Env) (userId : String) (c : Cmd) : Prop :=
  c = .resetDailyUploads ∨ c.quotaUser?.bind env.uuidIn = some userId

theorem not_writesQuota_of_family (h : c.family.writesQuota = false) :
    ¬ WritesQuota env userId c := by
  rintro (rfl | hc)
  · exact absurd h (by decide)
  · cases c <;> simp [Cmd.quotaUser?] at hc <;> simp [Cmd.family, Family.writesQuota] at h

/-- Rows that exist keep their values under every other command. -/
theorem quota_kept (h : ¬ WritesQuota env userId c) {q : UserQuota}
    (hq : w.quotas.get userId = some q) : (env.exec c w).2.quotas.get userId = some q := by
  generalize hr : (env.exec c w).2.quotas.get userId = r
  cases quota_step hr with
  | kept same => exact same.symm.trans hq
  | inserted cmd user missing => exact absurd (hq.symm.trans missing) (by simp)
  | charged cmd user old | released cmd user old =>
    refine absurd (Or.inr ?_) h
    rw [cmd]
    exact user
  | reset cmd old => exact absurd (Or.inl cmd) h

theorem showsRow_kept (h : ¬ WritesQuota env userId c) {e : CachedQuota}
    (he : ShowsRow userId w e) : ShowsRow userId (env.exec c w).2 e := by
  obtain ⟨q, hq, hd⟩ := he
  exact ⟨q, quota_kept h hq, hd⟩

/-- The entry after a command that stores only what `may` allows. -/
theorem quotaEntryInv_exec {m : ℕ} (h : ¬ WritesQuota env userId c)
    (hi : QuotaEntryInv userId w m)
    (hm : ∀ e ttl, c = .setQuota (cacheKey userId) e ttl → 0 < m ∨ ShowsRow userId w e) :
    QuotaEntryInv userId (env.exec c w).2 m := by
  intro e he
  have hold : 0 < m ∨ ShowsRow userId w e := by
    by_cases hf : c.family = .quotaFill
    · cases c <;> simp only [Cmd.family, reduceCtorEq] at hf
      case setQuota key entry ttl =>
        by_cases hk : cacheKey userId = key
        · subst hk
          simp only [Env.exec, Function.update_self, Option.some.injEq] at he
          exact hm e ttl (he ▸ rfl)
        · simp only [Env.exec, Function.update_of_ne hk] at he
          exact hi e he
    · exact hi e (quotaCache_before_exec hf he)
  exact hold.imp id (showsRow_kept h)

theorem quotaDebt_next_idle {g : Option Bool} {r : c.Reply} (hg : g ≠ some true)
    (h : ¬ WritesQuota env userId c) : (quotaDebt env userId).next g c r = g := by
  rcases g with _ | _ | _
  · rfl
  · simp only [quotaDebt, Option.map_some, Option.some.injEq]
    cases c <;> cases r <;> simp only [Bool.false_and, Bool.false_or]
    case chargeQuota.ok s n a => simp_all [WritesQuota, Cmd.quotaUser?]
    case releaseQuota.ok s n a => simp_all [WritesQuota, Cmd.quotaUser?]
    case resetDailyUploads.ok ids => simp_all [WritesQuota]
  · exact absurd rfl hg

/-- A request that owes nothing may issue every command that leaves the row alone. -/
theorem idle_neutral {g : Option Bool} (hg : g ≠ some true) (h : ¬ WritesQuota env userId c) :
    (quotaCacheDiscipline env userId).Neutral g c := by
  intro w f hi hm
  exact ⟨quotaDebt_next_idle hg h, quotaEntryInv_exec h hi hm, trivial⟩

theorem other_neutral_quotaCache {g : Option Bool} (hw : c.family.writesQuota = false)
    (hc : c.family ≠ .quotaCache) : (quotaCacheDiscipline env userId).Neutral g c := by
  intro w f hi hm
  refine ⟨?_, quotaEntryInv_exec (not_writesQuota_of_family hw) hi hm, trivial⟩
  cases hr : ((service env).exec c w).1 <;> rcases g with _ | owes <;> try rfl
  all_goals
    cases c <;> first | rfl | exact absurd rfl hc |
      simp [Cmd.family, Family.writesQuota] at hw

end Commands

section Bodies
variable {env : Env} {userId s : String} {w : World} {m : ℕ} {g : Option Bool}

/-- The request owes nothing, as at its beginning. -/
abbrev Settled {α : Type} (g : Option Bool) : α → Option Bool → World → ℕ → Prop :=
  fun _ g' _ _ => g' = g

theorem family_neutral {F : List Family} (hg : g ≠ some true) (hF : ∀ f ∈ F, f.writesQuota = false) :
    ∀ c : Cmd, c.family ∈ F → (quotaCacheDiscipline env userId).Neutral g c :=
  fun _ hc => idle_neutral hg (not_writesQuota_of_family (hF _ hc))

/-- A part that leaves the rows alone, before the part that matters. -/
theorem idle_after {α β : Type} {F : List Family} {x : Svc α} {f : α → Svc β}
    (hg : g ≠ some true) (hx : Touches F x) (hF : ∀ f ∈ F, f.writesQuota = false)
    (hf : ∀ a w' m', (quotaCacheDiscipline env userId).Keeps (f a) g w' m' (Settled g)
      (Settled g)) :
    (quotaCacheDiscipline env userId).Keeps (x >>= f) g w m (Settled g) (Settled g) :=
  keeps_after_touch hx (family_neutral hg hF) (fun _ _ _ _ _ => rfl)
    fun a w' m' _ _ => hf a w' m'

theorem idle_keeps {α : Type} {F : List Family} {x : Svc α} (hg : g ≠ some true)
    (hx : Touches F x) (hF : ∀ f ∈ F, f.writesQuota = false) :
    (quotaCacheDiscipline env userId).Keeps x g w m (Settled g) (Settled g) :=
  keeps_of_touch hx (family_neutral hg hF) (fun _ _ _ _ _ => rfl) fun _ _ _ _ _ => rfl

/-- An update of the row owes a DEL. -/
theorem quotaEntryInv_update {f : UserQuota → UserQuota} {hf : ∀ q, (f q).userId = q.userId}
    (hi : QuotaEntryInv userId w m) :
    QuotaEntryInv userId (w.updateQuota userId f hf)
      ((if (w.quotas.get userId).isSome then 1 else 0) + m) := by
  intro e he
  rcases hi e he with hm | ⟨q, hq, -⟩
  · exact Or.inl (by omega)
  · rw [if_pos (by rw [hq]; rfl)]
    exact Or.inl (by omega)

/-- An update whose answer is the number of rows it has reached. -/
theorem quotaEntryInv_reached {f : UserQuota → UserQuota} {hf : ∀ q, (f q).userId = q.userId}
    (hi : QuotaEntryInv userId w ((quotaDebt env userId).value (some false) + m)) :
    QuotaEntryInv userId (w.updateQuota userId f hf) ((quotaDebt env userId).value
      (some (decide ((if (w.quotas.get userId).isSome then 1 else 0) ≠ 0))) + m) := by
  have hzero : QuotaEntryInv userId w m := by
    intro e he
    exact (hi e he).imp (fun h => (Nat.zero_add m).symm ▸ h) id
  have hvalue : (quotaDebt env userId).value
      (some (decide ((if (w.quotas.get userId).isSome then 1 else 0) ≠ 0))) =
        if (w.quotas.get userId).isSome then 1 else 0 := by
    cases (w.quotas.get userId).isSome <;> rfl
  rw [hvalue]
  exact quotaEntryInv_update hzero

theorem chargeQuota_keeps (hu : env.uuidIn userId = some userId) (n : Int) :
    (quotaCacheDiscipline env userId).Keeps (await (.chargeQuota userId n)) (some false) w m
      (fun (affected : ℕ) g' _ _ => g' = some (decide (affected ≠ 0))) (Settled (some false)) := by
  refine keeps_await fun w' f r u _ hi _ he => ?_
  simp only [Env.exec, hu] at he
  obtain ⟨rfl, rfl⟩ := Prod.mk.inj he
  have hg (a : ℕ) : (quotaCacheDiscipline env userId).next (some false) (.chargeQuota userId n)
      (.ok a) = some (decide (a ≠ 0)) := by
    simp [quotaCacheDiscipline, quotaDebt, hu]
  refine ⟨?_, trivial, fun _ _ _ _ => hg _⟩
  rw [hg]
  exact quotaEntryInv_reached hi

theorem releaseQuota_keeps (hu : env.uuidIn userId = some userId) (n : Int) :
    (quotaCacheDiscipline env userId).Keeps (await (.releaseQuota userId n)) (some false) w m
      (fun (affected : ℕ) g' _ _ => g' = some (decide (affected ≠ 0))) (Settled (some false)) := by
  refine keeps_await fun w' f r u _ hi _ he => ?_
  simp only [Env.exec, hu] at he
  obtain ⟨rfl, rfl⟩ := Prod.mk.inj he
  have hg (a : ℕ) : (quotaCacheDiscipline env userId).next (some false) (.releaseQuota userId n)
      (.ok a) = some (decide (a ≠ 0)) := by
    simp [quotaCacheDiscipline, quotaDebt, hu]
  refine ⟨?_, trivial, fun _ _ _ _ => hg _⟩
  rw [hg]
  exact quotaEntryInv_reached hi

/-- The rows that the reset does not report keep their values. -/
theorem resetDailyUploads_keeps :
    (quotaCacheDiscipline env userId).Keeps (await .resetDailyUploads) (some false) w m
      (fun (userIds : List String) g' _ _ => g' = some (userIds.contains userId))
      (Settled (some false)) := by
  refine keeps_await fun w' f r u _ hi _ he => ?_
  obtain ⟨rfl, rfl⟩ := Prod.mk.inj he
  have hg : (quotaCacheDiscipline env userId).next (some false) .resetDailyUploads
      (.ok ((w'.quotas.rows.filter fun q => q.quotaDate < utcDay w'.now).map (·.userId))) =
      some (((w'.quotas.rows.filter fun q => q.quotaDate < utcDay w'.now).map
        (·.userId)).contains userId) := by
    simp [quotaCacheDiscipline, quotaDebt]
  refine ⟨fun e hent => ?_, trivial, fun _ _ _ _ => hg⟩
  rw [hg]
  by_cases hmem : ((w'.quotas.rows.filter fun q => q.quotaDate < utcDay w'.now).map
      (·.userId)).contains userId = true
  · left
    rw [hmem]
    show 0 < 1 + f
    omega
  · rcases hi e hent with hm | ⟨q, hq, hd⟩
    · left
      have hm : 0 < 0 + f := hm
      omega
    · right
      refine ⟨q, ?_, hd⟩
      have hday : ¬ q.quotaDate < utcDay w'.now := by
        intro hday
        obtain ⟨hrow, hkey⟩ := Keyed.Table.get_some.mp hq
        exact hmem (by simpa using ⟨q, ⟨hrow, hday⟩, hkey⟩)
      rw [Keyed.Table.get_mapRows, hq, Option.map_some, if_neg hday]

/-- The DEL pays what is owed. -/
theorem delQuota_keeps (key : String) {E : Err → Option Bool → World → ℕ → Prop} :
    (quotaCacheDiscipline env userId).Keeps (await (.delQuota key)) g w m
      (fun _ g' _ _ => g' = g.map fun owes => owes && key ≠ cacheKey userId) E := by
  refine keeps_await fun w' f r u _ hi _ he => ?_
  obtain ⟨rfl, rfl⟩ := Prod.mk.inj he
  refine ⟨fun e hent => ?_, trivial, fun _ _ _ _ => rfl⟩
  by_cases hk : cacheKey userId = key
  · subst hk
    simp at hent
  · simp only [Function.update_of_ne hk] at hent
    have hg : (quotaCacheDiscipline env userId).next g (.delQuota key) (.ok ()) = g := by
      rcases g with _ | owes
      · rfl
      · simp [quotaCacheDiscipline, quotaDebt, Ne.symm hk]
    rw [hg]
    exact hi e hent

theorem invalidateCache_keeps {E : Err → Option Bool → World → ℕ → Prop} :
    (quotaCacheDiscipline env userId).Keeps (invalidateCache s) g w m
      (fun _ g' _ _ => g' = g.map fun owes => owes && s ≠ userId) E := by
  have hkey : (fun owes => owes && decide (cacheKey s ≠ cacheKey userId)) =
      fun owes => owes && decide (s ≠ userId) := by
    funext owes
    by_cases hs : s = userId
    · simp [hs]
    · simp [hs, mt cacheKey_injective hs]
  refine Discipline.Keeps.tryCatch (E := fun _ _ _ _ => False) ?_ fun e g' w' m' hi h => ?_
  · exact hkey ▸ delQuota_keeps (cacheKey s)
  · exact (h.now hi).elim

/-- Whatever was owed, it is paid. -/
theorem invalidateOwn_keeps {owes : Bool} {E : Err → Option Bool → World → ℕ → Prop} :
    (quotaCacheDiscipline env userId).Keeps (invalidateCache userId) (some owes) w m
      (Settled (some false)) E :=
  invalidateCache_keeps.mono (fun _ _ _ _ _ h => by simpa using h) fun _ _ _ _ _ h => h

theorem invalidateAll_keeps (userIds : List String)
    {E : Err → Option Bool → World → ℕ → Prop} {owes : Bool} (h : owes = true → userId ∈ userIds) :
    (quotaCacheDiscipline env userId).Keeps (invalidateAll userIds) (some owes) w m
      (Settled (some false)) E := by
  induction userIds generalizing owes w m with
  | nil =>
    cases owes with
    | false => exact Discipline.keeps_pure fun _ _ _ _ => rfl
    | true => exact absurd (h rfl) List.not_mem_nil
  | cons id ids ih =>
    refine Discipline.Keeps.bind invalidateCache_keeps fun _ g' w' m' hi' hg => ?_
    obtain rfl := hg.now hi'
    refine ih fun hstill => ?_
    simp only [ne_eq, decide_not, Bool.and_eq_true, Bool.not_eq_true',
      decide_eq_false_iff_not] at hstill
    exact (List.mem_cons.mp (h hstill.1)).resolve_left fun he => hstill.2 he.symm

/-- What a body has to know about the user it works for. -/
def Addressed (env : Env) (userId s : String) (g : Option Bool) : Prop :=
  g ≠ some true ∧ (env.uuidIn s = some userId → s = userId ∧ g = some false)

theorem recordUpload_keeps (h : Addressed env userId s g) (n : JsNumber) :
    (quotaCacheDiscipline env userId).Keeps (recordUpload s n) g w m (Settled g) (Settled g) := by
  refine keeps_sync_bind (fun _ _ _ _ _ _ => rfl) fun _ _ => ?_
  by_cases hs : env.uuidIn s = some userId
  · obtain ⟨rfl, rfl⟩ := h.2 hs
    refine Discipline.Keeps.bind (chargeQuota_keeps hs n.toBigInt) fun affected g' w' m' hi' hg => ?_
    obtain rfl := hg.now hi'
    refine keeps_sync_bind (fun e he _ _ _ _ => ?_) fun _ _ =>
      Discipline.Keeps.bind invalidateOwn_keeps fun _ g' w' m' hi' hg => ?_
    · simp [enforceAffected_error he]
    · obtain rfl := hg.now hi'
      exact idle_keeps (F := [.background]) h.1 (touches_await (by simp [Cmd.family])) (by decide)
  · have hw : ¬ WritesQuota env userId (.chargeQuota s n.toBigInt) := by
      simp [WritesQuota, Cmd.quotaUser?, hs]
    refine Discipline.Keeps.after (P := fun c => c = .chargeQuota s n.toBigInt)
      ⟨rfl, fun _ => trivial⟩ (fun c hc => hc ▸ idle_neutral h.1 hw)
      (fun _ _ _ _ _ => rfl) fun affected w' m' _ _ => ?_
    exact idle_keeps h.1 (F := [.quotaCache, .background]) ((touches_sync _).bind fun _ =>
      ((invalidateCache_touches s).mono (by decide)).bind fun _ =>
        touches_await (by simp [Cmd.family])) (by decide)

theorem recordDelete_keeps (h : Addressed env userId s g) (n : JsNumber) :
    (quotaCacheDiscipline env userId).Keeps (recordDelete s n) g w m (Settled g) (Settled g) := by
  refine keeps_sync_bind (fun _ _ _ _ _ _ => rfl) fun _ _ => ?_
  by_cases hs : env.uuidIn s = some userId
  · obtain ⟨rfl, rfl⟩ := h.2 hs
    refine Discipline.Keeps.bind (releaseQuota_keeps hs n.toBigInt) fun affected g' w' m' hi' hg => ?_
    obtain rfl := hg.now hi'
    refine keeps_sync_bind (fun e he _ _ _ _ => ?_) fun _ _ => invalidateOwn_keeps
    simp [enforceAffected_error he]
  · have hw : ¬ WritesQuota env userId (.releaseQuota s n.toBigInt) := by
      simp [WritesQuota, Cmd.quotaUser?, hs]
    refine Discipline.Keeps.after (P := fun c => c = .releaseQuota s n.toBigInt)
      ⟨rfl, fun _ => trivial⟩ (fun c hc => hc ▸ idle_neutral h.1 hw)
      (fun _ _ _ _ _ => rfl) fun affected w' m' _ _ => ?_
    exact idle_keeps h.1 ((touches_sync _).bind fun _ => invalidateCache_touches s) (by decide)

theorem uploadHeld_keeps_quotaCache (h : Addressed env userId s g) (file : File)
    (context : MediaContext) (thumbnailFile : Option File) (sharedWith : Option (List String)) :
    (quotaCacheDiscipline env userId).Keeps
      (uploadHeld env s file context thumbnailFile sharedWith) g w m (Settled g) (Settled g) := by
  refine idle_after h.1 (authorizeGroupIconUpload_touches env context s) (by decide)
    fun _ _ _ => idle_after h.1 (enforceQuota_touches s _) (by decide)
    fun _ _ _ => idle_after h.1 (validateFile_touches env file context) (by decide)
    fun _ _ _ => idle_after h.1 (findDuplicate_touches s _) (by decide)
    fun duplicate _ _ => ?_
  cases duplicate with
  | some existing =>
    exact idle_after h.1 (mergeSharedWith_touches s existing sharedWith) (by decide)
      fun _ _ _ => idle_keeps h.1 (buildUploadResponse_touches env existing) (by decide)
  | none =>
    refine idle_after h.1 (storeNew_touches env s file context thumbnailFile sharedWith)
      (by decide) fun media _ _ => idle_after (F := [.dedup]) h.1
      (touches_await (by simp [Cmd.family])) (by decide) fun _ _ _ =>
        Discipline.Keeps.bind (recordUpload_keeps h _) fun _ g' w' m' hi' hg => ?_
    obtain rfl := hg.now hi'
    exact idle_keeps h.1 (buildUploadResponse_touches env media) (by decide)

theorem removeDeleted_keeps_quotaCache (h : Addressed env userId s g) (id : String)
    (media : Media) : (quotaCacheDiscipline env userId).Keeps (removeDeleted id s media) g w m
      (Settled g) (Settled g) := by
  have hrest (w : World) (m : ℕ) : (quotaCacheDiscipline env userId).Keeps (do
      await (.delMeta (metaKey id))
      recordDelete s (.int media.blobSize)) g w m (Settled g) (Settled g) :=
    idle_after (F := [.metadata]) h.1 (touches_await (by simp [Cmd.family])) (by decide)
      fun _ _ _ => recordDelete_keeps h _
  refine idle_after (F := [.bucket]) h.1 (touches_await (by simp [Cmd.family])) (by decide)
    fun _ _ _ => ?_
  split
  · exact idle_after (F := [.bucket]) h.1 (touches_await (by simp [Cmd.family])) (by decide)
      fun _ _ _ => hrest _ _
  · exact hrest _ _

theorem delete_keeps_quotaCache (h : Addressed env userId s g) (id : String) :
    (quotaCacheDiscipline env userId).Keeps (delete id s) g w m (Settled g) (Settled g) :=
  idle_after h.1 (findActive_touches id s) (by decide) fun media _ _ =>
    idle_after (F := []) h.1 (touches_sync _) (by decide) fun _ _ _ =>
      idle_after (F := [.mediaDelete]) h.1 (touches_await (by simp [Cmd.family])) (by decide)
        fun _ _ _ => removeDeleted_keeps_quotaCache h id media

theorem resetDailyUploads_body_keeps :
    (quotaCacheDiscipline env userId).Keeps QuotaService.resetDailyUploads (some false) w m
      (Settled (some false)) (Settled (some false)) := by
  refine Discipline.Keeps.bind resetDailyUploads_keeps fun userIds g' w' m' hi' hg => ?_
  obtain rfl := hg.now hi'
  exact invalidateAll_keeps userIds fun h => by simpa using h

/-- The user of a call is named as Postgres prints the id. -/
def NamesUser (env : Env) (userId : String) (x : Call) : Prop :=
  x.quotaUser?.bind env.uuidIn = some userId → x.quotaUser? = some userId

theorem start_ne (x : Call) : (quotaDebt env userId).start x ≠ some true := by
  simp only [quotaDebt]
  split <;> simp

theorem addressed_start {x : Call} (hx : NamesUser env userId x) (hs : x.quotaUser? = some s) :
    Addressed env userId s ((quotaDebt env userId).start x) := by
  refine ⟨start_ne x, fun hu => ?_⟩
  · have hc : x.quotaUser?.bind env.uuidIn = some userId := by rw [hs]; exact hu
    exact ⟨Option.some.inj (hs.symm.trans (hx hc)), if_pos (Or.inr hc)⟩

theorem reader_keeps {x : Call} (hx : x.writesQuota = false) :
    (quotaCacheDiscipline env userId).Keeps (handle env x) ((quotaDebt env userId).start x) w m
      (Settled ((quotaDebt env userId).start x)) (Settled ((quotaDebt env userId).start x)) :=
  idle_keeps (start_ne x) (handle_touches_of_not_writesQuota env hx) (by decide)

theorem handle_keeps_quotaCache (x : Call) (hx : NamesUser env userId x) :
    (quotaCacheDiscipline env userId).Keeps (handle env x) ((quotaDebt env userId).start x) w m
      (Settled ((quotaDebt env userId).start x)) (Settled ((quotaDebt env userId).start x)) := by
  cases x with
  | upload ownerId file context thumbnailFile sharedWith =>
    have h := addressed_start hx rfl
    refine Discipline.Keeps.map (upload_of_held (E := fun g' _ _ => g' = _)
      (fun g c hc => other_neutral_quotaCache (by rw [hc]; rfl) (by simp [hc]))
      (fun _ _ _ _ => rfl) (fun _ _ _ _ h => h) fun w' m' _ _ =>
        uploadHeld_keeps_quotaCache h file context thumbnailFile sharedWith) fun _ _ _ _ _ h => h
  | delete id requesterId =>
    exact (delete_keeps_quotaCache (addressed_start hx rfl) id).map fun _ _ _ _ _ h => h
  | recordUpload u n =>
    exact (recordUpload_keeps (addressed_start hx rfl) n).map fun _ _ _ _ _ h => h
  | recordDelete u n =>
    exact (recordDelete_keeps (addressed_start hx rfl) n).map fun _ _ _ _ _ h => h
  | resetDailyUploads => exact resetDailyUploads_body_keeps.map fun _ _ _ _ _ h => h
  | _ => exact reader_keeps rfl

end Bodies

/-! Runs -/

/-- No request that concerns the user is still running. -/
def AtRestFor (env : Env) (userId : String) (p : ServicePool) : Prop :=
  ∀ t ∈ p.threads, Concerns env userId t.call → t.outcome.isSome = true

instance (env : Env) (userId : String) (p : ServicePool) : Decidable (AtRestFor env userId p) :=
  inferInstanceAs (Decidable (∀ t ∈ p.threads, _))

/-- A request has changed the user's row and not yet issued the DEL of the entry. -/
def OwesDel (env : Env) (userId : String) (p : ServicePool) : Prop :=
  ∃ t ∈ p.threads, (quotaDebt env userId).of t = some true

instance (env : Env) (userId : String) (p : ServicePool) : Decidable (OwesDel env userId p) :=
  inferInstanceAs (Decidable (∃ t ∈ p.threads, _))

/-- The key under which a command stores a quota. -/
def Cmd.quotaFill? : Cmd → Option String
  | .setQuota key _ _ => some key
  | _ => none

/-- The values that the entry of a row shows. -/
def SameValues (row q : UserQuota) : Prop :=
  row.storageUsed = q.storageUsed ∧ row.storageLimit = q.storageLimit ∧
    row.filesCount = q.filesCount ∧ row.filesLimit = q.filesLimit ∧
    row.dailyUploads = q.dailyUploads ∧ row.dailyUploadLimit = q.dailyUploadLimit

instance (row q : UserQuota) : Decidable (SameValues row q) :=
  inferInstanceAs (Decidable (_ ∧ _))

/-- The row of the user has the values that the last SELECT of a request has returned. -/
def RowAsRead (userId : String) (w : World) (log : ServiceLog) : Prop :=
  ∀ row ∈ lastQuota log, ∃ q ∈ w.quotas.get userId, SameValues row q

instance (userId : String) (w : World) (log : ServiceLog) : Decidable (RowAsRead userId w log) :=
  inferInstanceAs (Decidable (∀ row ∈ lastQuota log, _))

/-- If the step is a SET of the user's entry, his row has not changed since the SELECT of the same
request, or the DEL of a change that has been committed is still to come. -/
def SetsInTime (env : Env) (userId : String) (p : ServicePool) : Label Call Act → Prop
  | .step i => (p.nextCmd i).bind Cmd.quotaFill? = some (cacheKey userId) →
      OwesDel env userId p ∨ ∀ t ∈ p.threads[i]?, RowAsRead userId p.world t.log
  | _ => True

instance (env : Env) (userId : String) (p : ServicePool) (l : Label Call Act) :
    Decidable (SetsInTime env userId p l) :=
  match l with
  | .step _ => inferInstanceAs (Decidable (_ → _))
  | .call _ | .act _ => isTrue trivial

/-- What a SET in time stores shows the row. -/
def SetsCurrent (env : Env) (userId : String) (p : ServicePool) : Label Call Act → Prop
  | .step i => ∀ e ttl, p.nextCmd i = some (.setQuota (cacheKey userId) e ttl) →
      OwesDel env userId p ∨ ShowsRow userId p.world e
  | _ => True

/-- Calls about the user name him by the id that Postgres prints. -/
def NamesUserCall (env : Env) (userId : String) : Label Call Act → Prop
  | .call x => NamesUser env userId x
  | _ => True

instance (env : Env) (userId : String) (l : Label Call Act) :
    Decidable (NamesUserCall env userId l) :=
  match l with
  | .call _ => inferInstanceAs (Decidable (_ → _))
  | .step _ | .act _ => isTrue trivial

theorem owed_le_total {env : Env} {userId : String} {p : ServicePool} (h : OwesDel env userId p) :
    0 < (quotaDebt env userId).total p := by
  obtain ⟨t, ht, hg⟩ := h
  have hmem : 1 ∈ p.threads.map fun t => (quotaDebt env userId).value ((quotaDebt env userId).of t) :=
    List.mem_map.mpr ⟨t, ht, by rw [hg]; rfl⟩
  exact List.sum_pos_iff_exists_pos_nat.mpr ⟨1, hmem, Nat.one_pos⟩

theorem quotaDebt_of_unconcerned {env : Env} {userId : String} {t : ServiceThread}
    (h : ¬ Concerns env userId t.call) : (quotaDebt env userId).of t = none := by
  have hstart : (quotaDebt env userId).start t.call = none := if_neg h
  unfold Account.of
  rw [hstart]
  induction t.log with
  | nil => rfl
  | cons e es ih => exact ih

theorem value_start (env : Env) (userId : String) (x : Call) :
    (quotaDebt env userId).value ((quotaDebt env userId).start x) = 0 := if_neg (start_ne x)

theorem callable_of_keeps {env : Env} {userId : String} {x : Call}
    (h : ∀ w m, (quotaCacheDiscipline env userId).Keeps (handle env x)
      ((quotaDebt env userId).start x) w m (Settled ((quotaDebt env userId).start x))
      (Settled ((quotaDebt env userId).start x))) :
    (quotaCacheDiscipline env userId).Callable
      (fun x _ g _ _ => g = (quotaDebt env userId).start x) x := by
  refine ⟨value_start env userId x, fun w m _ => (h w m).upholds.mono fun r g w m _ h => ?_⟩
  cases r <;> exact h

theorem quotaCache_sound (env : Env) (userId : String) :
    (quotaCacheDiscipline env userId).Sound
      (fun x _ g _ _ => g = (quotaDebt env userId).start x)
      (fun p l => NamesUserCall env userId l ∧ SetsCurrent env userId p l) where
  call p x hok := callable_of_keeps fun _ _ => handle_keeps_quotaCache x hok.1
  fork c x hx := by
    cases c <;> simp only [service, List.not_mem_nil, List.mem_singleton] at hx
    subst hx
    exact callable_of_keeps fun _ _ => reader_keeps rfl
  act p a m hok hi := by
    refine ⟨fun e he => (hi e (act_quotaCache he)).imp id fun ⟨q, hrow, hd⟩ => ⟨q, ?_, hd⟩, trivial⟩
    exact act_quotas a p.world ▸ hrow
  step p i x log c k hok ht e ttl hc := by
    refine (hok.2 e ttl ?_).imp owed_le_total id
    simp [Pool.nextCmd, ht, hc]

/-- A request stores what its SELECT has returned. -/
theorem setsCurrent_of_inTime {env : Env} {userId : String} {w : World} {p : ServicePool}
    {ok : ServicePool → Label Call Act → Prop} (h : (service env).Runs ok ⟨w, []⟩ p)
    {l : Label Call Act} (hl : SetsInTime env userId p l) : SetsCurrent env userId p l := by
  cases l with
  | call _ | act _ => trivial
  | step i =>
    intro e ttl hc
    obtain ⟨t, ht⟩ : ∃ t, p.threads[i]? = some t := by
      cases ht : p.threads[i]? with
      | none => simp [Pool.nextCmd, ht] at hc
      | some t => exact ⟨t, rfl⟩
    refine (hl (by rw [hc]; rfl)).imp id fun hread => ?_
    obtain ⟨row, hrow, rfl⟩ := (writesBack_of_runs h ht hc).quota _ _ _ rfl
    obtain ⟨q, hq, hsame⟩ := hread t ht row hrow
    exact ⟨q, hq, row, ofCached_toCached row, hsame⟩

/-- As long as no change of a user's row comes in between the SELECT of a request and its SET, unless
its DEL comes after the SET, an entry that is found while no operation on his quota is in flight
decodes to the row. -/
theorem quotaCache_coherent (env : Env) (userId : String) (w : World)
    (hw : ∀ e, w.quotaCache (cacheKey userId) = some e → ShowsRow userId w e) (p : ServicePool)
    (h : (service env).Runs (fun p l => NamesUserCall env userId l ∧ SetsInTime env userId p l)
      ⟨w, []⟩ p)
    (hrest : AtRestFor env userId p) (e : CachedQuota)
    (he : p.world.quotaCache (cacheKey userId) = some e) : ShowsRow userId p.world e := by
  have hstart : (quotaCacheDiscipline env userId).inv w 0 := fun e he => Or.inr (hw e he)
  have hcurrent : (service env).Runs
      (fun p l => NamesUserCall env userId l ∧ SetsCurrent env userId p l) ⟨w, []⟩ p :=
    h.strengthen fun q l hq hl => ⟨hl.1, setsCurrent_of_inTime hq hl.2⟩
  have hp := ((Discipline.holds_of_empty hstart).runs (quotaCache_sound env userId) hcurrent).1
  have hzero : (quotaDebt env userId).total p = 0 := by
    refine List.sum_eq_zero fun n hn => ?_
    obtain ⟨t, ht, rfl⟩ := List.mem_map.mp hn
    by_cases hc : Concerns env userId t.call
    · obtain ⟨a, ha⟩ := Option.isSome_iff_exists.mp (hrest t ht hc)
      have hg : (quotaDebt env userId).of t = (quotaDebt env userId).start t.call :=
        hp.outcome ht ha
      rw [hg]
      exact value_start env userId t.call
    · rw [quotaDebt_of_unconcerned hc]
      rfl
  rcases hp.inv e he with hm | hs
  · exact absurd hm (by
      show ¬ 0 < (quotaDebt env userId).total p
      omega)
  · exact hs

/-- A check that creates the row, and then an upload of ten bytes with its alert task. -/
def checkThenRecord : List (Label Call Act) :=
  [.call (.checkQuota (exampleId 7) (.int 1)), .step 0, .step 0, .step 0, .step 0, .step 0,
    .call (.recordUpload (exampleId 7) (.int 10)), .step 1, .step 1, .step 1,
    .step 2, .step 2, .step 2]

theorem quotaCache_coherent_after_record : ∃ p e, (service exampleEnv).play
    (fun p l => NamesUserCall exampleEnv (exampleId 7) l ∧ SetsInTime exampleEnv (exampleId 7) p l)
    ⟨World.empty, []⟩ checkThenRecord = some p ∧
    p.world.quotaCache (cacheKey (exampleId 7)) = some e ∧ ShowsRow (exampleId 7) p.world e := by
  have hplay : (((service exampleEnv).play
      (fun p l => NamesUserCall exampleEnv (exampleId 7) l ∧
        SetsInTime exampleEnv (exampleId 7) p l)
      ⟨World.empty, []⟩ checkThenRecord).filter fun p =>
        AtRestFor exampleEnv (exampleId 7) p ∧
          (p.world.quotaCache (cacheKey (exampleId 7))).isSome).isSome = true := by
    decide +kernel
  obtain ⟨p, hp⟩ := Option.isSome_iff_exists.mp hplay
  simp only [Option.filter_eq_some_iff, decide_eq_true_eq] at hp
  obtain ⟨hp, hrest, hsome⟩ := hp
  obtain ⟨e, he⟩ := Option.isSome_iff_exists.mp hsome
  exact ⟨p, e, hp, he, quotaCache_coherent exampleEnv (exampleId 7) World.empty
    (fun e he => absurd he (by simp [World.empty])) p (System.runs_of_play hp) hrest e he⟩

/-! A SET can come late -/

/-- Only operations on the quota of one user arrive. -/
def quotaOperation (userId : String) : Label Call Act → Bool
  | .call (.checkQuota u _) | .call (.recordUpload u _) | .call (.recordDelete u _) => u = userId
  | .call .resetDailyUploads => true
  | .call _ => false
  | _ => true

/-- The check has read the row; the upload is recorded and its DEL is issued; then the check
stores what it has read. -/
def lateSet : List (Label Call Act) :=
  [.call (.checkQuota (exampleId 7) (.int 1)), .step 0, .step 0, .step 0, .step 0,
    .call (.recordUpload (exampleId 7) (.int 10)), .step 1, .step 1, .step 1,
    .step 0, .step 2]

/-- The entry can outlive the row it was read from. -/
theorem quotaCache_not_coherent :
    ¬ ∀ (env : Env) (userId : String) (w : World) (p : ServicePool),
      env.uuidIn userId = some userId →
      (∀ e, w.quotaCache (cacheKey userId) = some e → ShowsRow userId w e) →
      (service env).Runs (fun _ l => quotaOperation userId l = true) ⟨w, []⟩ p →
      AtRestFor env userId p →
      ∀ e, p.world.quotaCache (cacheKey userId) = some e → ShowsRow userId p.world e := by
  intro hall
  have hplay : (((service exampleEnv).play (fun _ l => quotaOperation (exampleId 7) l = true)
      ⟨World.empty, []⟩ lateSet).filter fun p => AtRestFor exampleEnv (exampleId 7) p ∧
        (p.world.quotaCache (cacheKey (exampleId 7))).any fun e =>
          ¬ ShowsRow (exampleId 7) p.world e).isSome = true := by
    decide +kernel
  obtain ⟨p, hp⟩ := Option.isSome_iff_exists.mp hplay
  simp only [Option.filter_eq_some_iff, decide_eq_true_eq, Option.any_eq_true] at hp
  obtain ⟨hp, hrest, e, he, hstale⟩ := hp
  exact hstale (hall exampleEnv (exampleId 7) World.empty p (exampleId_canonical 7)
    (fun e he => absurd he (by simp [World.empty])) (System.runs_of_play hp) hrest e he)

end WhisprMedia
