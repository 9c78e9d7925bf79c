import WhisprMedia.DedupEntries
import WhisprMedia.SerialService

/-! What most of the service does to its stores when it runs alone: the rows keep all but their
ACL and their URL expiry, objects and dedup entries stay, and nobody is charged. -/
namespace WhisprMedia
open Awaiting Keyed MediaService QuotaService

/-- A row without the two columns that shares and reads write. -/
def Media.core (m : Media) : Media := { m with sharedWith := none, signedUrlExpiresAt := none }

theorem Media.core_eq {m m' : Media} (h : m.core = m'.core) : m'.id = m.id ∧
    m'.ownerId = m.ownerId ∧ m'.context = m.context ∧ m'.storagePath = m.storagePath ∧
    m'.thumbnailPath = m.thumbnailPath ∧ m'.contentType = m.contentType ∧
    m'.blobSize = m.blobSize ∧ m'.expiresAt = m.expiresAt ∧ m'.isActive = m.isActive := by
  obtain ⟨⟩ := m
  obtain ⟨⟩ := m'
  simp only [Media.core, Media.mk.injEq] at h
  obtain ⟨rfl, rfl, rfl, rfl, rfl, rfl, rfl, rfl, -, rfl, -, -⟩ := h
  exact ⟨rfl, rfl, rfl, rfl, rfl, rfl, rfl, rfl, rfl⟩

/-- A quota row of a user who has not been charged. -/
structure UserQuota.Fresh (q : UserQuota) : Prop where
  storageUsed : q.storageUsed = 0
  filesCount : q.filesCount = 0
  dailyUploads : q.dailyUploads = 0

/-- The quota row of a user is kept, or inserted for a user who had none. -/
structure QuotaKept (k : String) (w w' : World) : Prop where
  kept : ∀ q, w.quotas.get k = some q → w'.quotas.get k = some q
  new : ∀ q, w'.quotas.get k = some q → w.quotas.get k = some q ∨ q.Fresh

/-- Rows, objects, dedup entries and quotas are kept. -/
structure Quiet (w w' : World) : Prop where
  media : ∀ k, (w'.media.get k).map Media.core = (w.media.get k).map Media.core
  bucket : w'.bucket = w.bucket
  dedup : w'.dedupCache = w.dedupCache
  quotas : ∀ k, QuotaKept k w w'
  drawn : w.drawn ≤ w'.drawn
  now : w'.now = w.now

/-- Not even an ACL or the expiry of a URL changes. -/
structure Calm (w w' : World) : Prop extends Quiet w w' where
  rows : w'.media = w.media

/-- The quota rows and their cached copies are not touched either. -/
structure Idle (w w' : World) : Prop extends Calm w w' where
  quotaRows : w'.quotas = w.quotas
  quotaCache : w'.quotaCache = w.quotaCache

/-- The commands that are quiet. -/
def Cmd.quiet : Cmd → Bool
  | .setDedup _ _ _ | .saveMedia _ _ | .softDelete _ _ | .putObject _ _ | .deleteObject _
  | .chargeQuota _ _ | .releaseQuota _ _ | .resetDailyUploads => false
  | _ => true

/-- The families whose commands are all quiet. -/
def Family.quiet : Family → Bool
  | .dedup | .mediaInsert | .mediaDelete | .bucket | .quotaCharge | .quotaRelease
  | .quotaReset => false
  | _ => true

theorem quiet_of_family {c : Cmd} (h : c.family.quiet = true) : c.quiet = true := by
  cases c <;> first | rfl | exact absurd h (by simp [Cmd.family, Family.quiet])

section Quiet
variable {env : Env} {w w' w'' : World} {c : Cmd}

theorem QuotaKept.refl (k : String) (w : World) : QuotaKept k w w :=
  ⟨fun _ h => h, fun _ h => Or.inl h⟩

theorem QuotaKept.trans {k : String} (h : QuotaKept k w w') (h' : QuotaKept k w' w'') :
    QuotaKept k w w'' := by
  refine ⟨fun q hq => h'.kept q (h.kept q hq), fun q hq => ?_⟩
  rcases h'.new q hq with hq | hq
  · exact h.new q hq
  · exact Or.inr hq

theorem QuotaKept.of_eq {k : String} (h : w'.quotas = w.quotas) : QuotaKept k w w' :=
  ⟨fun _ hq => h ▸ hq, fun _ hq => Or.inl (h ▸ hq)⟩

/-- A user who has no row now had none before. -/
theorem QuotaKept.none {k : String} (h : QuotaKept k w w') (hn : w'.quotas.get k = none) :
    w.quotas.get k = none := by
  rw [Option.eq_none_iff_forall_ne_some] at hn ⊢
  exact fun q hq => hn q (h.kept q hq)

/-- The row of a user now is the one he had, or he had none. -/
theorem QuotaKept.before {k : String} {q : UserQuota} (h : QuotaKept k w w')
    (hq : w'.quotas.get k = some q) :
    w.quotas.get k = some q ∨ w.quotas.get k = Option.none ∧ q.Fresh := by
  rcases h.new q hq with h0 | hf
  · exact Or.inl h0
  · cases h0 : w.quotas.get k with
    | none => exact Or.inr ⟨rfl, hf⟩
    | some q₀ =>
      obtain rfl := Option.some.inj ((h.kept q₀ h0).symm.trans hq)
      exact Or.inl rfl

theorem Quiet.refl (w : World) : Quiet w w :=
  ⟨fun _ => rfl, rfl, rfl, fun k => QuotaKept.refl k w, Nat.le_refl _, rfl⟩

theorem Quiet.trans (h : Quiet w w') (h' : Quiet w' w'') : Quiet w w'' where
  media k := (h'.media k).trans (h.media k)
  bucket := h'.bucket.trans h.bucket
  dedup := h'.dedup.trans h.dedup
  quotas k := (h.quotas k).trans (h'.quotas k)
  drawn := Nat.le_trans h.drawn h'.drawn
  now := h'.now.trans h.now

/-- A row is found again with the same core. -/
theorem Quiet.get (h : Quiet w w') {k : String} {m : Media} (hm : w.media.get k = some m) :
    ∃ m', w'.media.get k = some m' ∧ m'.core = m.core := by
  have hk := h.media k
  rw [hm, Option.map_some, Option.map_eq_some_iff] at hk
  exact hk

/-- A row that is found was there with the same core. -/
theorem Quiet.get_before (h : Quiet w w') {k : String} {m' : Media}
    (hm : w'.media.get k = some m') : ∃ m, w.media.get k = some m ∧ m.core = m'.core := by
  have hk := (h.media k).symm
  rw [hm, Option.map_some, Option.map_eq_some_iff] at hk
  exact hk

theorem core_exec (h : c.quiet = true) (k : String) :
    ((env.exec c w).2.media.get k).map Media.core = (w.media.get k).map Media.core := by
  generalize hr : (env.exec c w).2.media.get k = r
  cases media_step hr with
  | kept same => rw [same]
  | inserted cmd | removed cmd =>
    subst cmd
    exact Bool.noConfusion h
  | shared cmd old | signed cmd old =>
    rw [old]
    rfl

theorem quotaKept_exec (h : c.quiet = true) (k : String) : QuotaKept k w (env.exec c w).2 := by
  constructor
  · intro q hq
    generalize hr : (env.exec c w).2.quotas.get k = r
    cases quota_step hr with
    | kept same => exact same.symm.trans hq
    | inserted cmd user missing => exact absurd (hq.symm.trans missing) (by simp)
    | charged cmd | released cmd | reset cmd =>
      subst cmd
      exact Bool.noConfusion h
  · intro q hq
    cases quota_step hq with
    | kept same => exact Or.inl same
    | inserted cmd user missing => exact Or.inr ⟨rfl, rfl, rfl⟩
    | charged cmd | released cmd | reset cmd =>
      subst cmd
      exact Bool.noConfusion h

theorem quiet_exec (h : c.quiet = true) : Quiet w (env.exec c w).2 where
  media := core_exec h
  bucket := by
    by_cases hf : c.family = .bucket
    · cases c <;> simp only [Cmd.family, reduceCtorEq] at hf <;>
        simp only [Cmd.quiet, Bool.false_eq_true] at h
      simp only [Env.exec]
      split <;> rfl
    · exact exec_bucket hf
  dedup := by
    by_cases hf : c.family = .dedup
    · cases c <;> simp only [Cmd.family, reduceCtorEq] at hf <;>
        simp only [Cmd.quiet, Bool.false_eq_true] at h
      rfl
    · exact exec_dedupCache hf
  quotas := quotaKept_exec h
  drawn := drawn_le_exec
  now := exec_now

end Quiet

theorem Calm.refl (w : World) : Calm w w := ⟨Quiet.refl w, rfl⟩

theorem Calm.trans {w w' w'' : World} (h : Calm w w') (h' : Calm w' w'') : Calm w w'' :=
  ⟨h.toQuiet.trans h'.toQuiet, h'.rows.trans h.rows⟩

theorem Idle.refl (w : World) : Idle w w := ⟨Calm.refl w, rfl, rfl⟩

theorem Idle.trans {w w' w'' : World} (h : Idle w w') (h' : Idle w' w'') : Idle w w'' :=
  ⟨h.toCalm.trans h'.toCalm, h'.quotaRows.trans h.quotaRows, h'.quotaCache.trans h.quotaCache⟩

/-- The families whose commands are calm. -/
def Family.calm (f : Family) : Bool := f.quiet && !f.writesMedia

def Family.idle (f : Family) : Bool :=
  f.calm && !(f = .quotaCache || f = .quotaFill || f = .quotaLookup)

section
variable {env : Env} {w : World} {c : Cmd}

theorem calm_exec (h : c.family.calm = true) : Calm w (env.exec c w).2 := by
  have hf := Bool.and_eq_true_iff.mp h
  exact ⟨quiet_exec (quiet_of_family hf.1), exec_media (by simpa using hf.2)⟩

theorem idle_exec (h : c.family.idle = true) : Idle w (env.exec c w).2 := by
  have hf := Bool.and_eq_true_iff.mp h
  obtain ⟨⟨hcache, hfill⟩, hlookup⟩ : (c.family ≠ .quotaCache ∧ c.family ≠ .quotaFill) ∧
      c.family ≠ .quotaLookup := by simpa using hf.2
  have hwrites : c.family.writesQuota = false := by
    have hquiet := (Bool.and_eq_true_iff.mp hf.1).1
    cases hc : c.family <;> rw [hc] at hquiet <;> first | rfl | exact absurd hquiet (by decide)
  exact ⟨calm_exec hf.1, exec_quotas hwrites hlookup, exec_quotaCache hcache hfill⟩

end

/-! Quiet parts -/

/-- A handler whose commands take their effect or none. -/
def Handler.Faithful (env : Env) (h : Handler) : Prop :=
  ∀ c w, (h c w).2 = w ∨ (h c w).2 = (env.exec c w).2

theorem faithful_exec (env : Env) : Handler.Faithful env env.exec := fun _ _ => Or.inr rfl

section Parts
variable {env : Env} {h : Handler} {w : World} {α β : Type}

/-- A part that only addresses quiet families issues quiet commands. -/
theorem Touches.quiet {F : List Family} {x : Svc α} (hx : Touches F x)
    (hF : ∀ f ∈ F, f.quiet = true) : x.Issues fun c => c.quiet = true :=
  hx.issues.mono fun _ hc => quiet_of_family (hF _ hc)

theorem ends_of_quiet (hh : h.Faithful env) {x : Svc α} (hx : x.Issues fun c => c.quiet = true) :
    ProgE.Ends h x w (fun _ => Quiet w) (fun _ => Quiet w) := by
  refine ProgE.ends_of_issues hx Quiet.refl (fun _ _ _ h h' => h.trans h') fun c u hc => ?_
  rcases hh c u with he | he
  · rw [he]
    exact Quiet.refl u
  · rw [he]
    exact quiet_exec hc

theorem ends_quiet (hh : h.Faithful env) {F : List Family} {x : Svc α} (hx : Touches F x)
    (hF : ∀ f ∈ F, f.quiet = true) : ProgE.Ends h x w (fun _ => Quiet w) (fun _ => Quiet w) :=
  ends_of_quiet hh (hx.quiet hF)

theorem ends_calm (hh : h.Faithful env) {F : List Family} {x : Svc α} (hx : Touches F x)
    (hF : ∀ f ∈ F, f.calm = true) : ProgE.Ends h x w (fun _ => Calm w) (fun _ => Calm w) := by
  refine ends_of_touches hx Calm.refl (fun _ _ _ h h' => h.trans h') fun c u hc => ?_
  rcases hh c u with he | he
  · rw [he]
    exact Calm.refl u
  · rw [he]
    exact calm_exec (hF _ hc)

/-- A calm part before the part that matters. -/
theorem ends_calm_bind (hh : h.Faithful env) {F : List Family} {x : Svc α} {f : α → Svc β}
    {Q : β → World → Prop} {E : Err → World → Prop} (hx : Touches F x)
    (hF : ∀ f ∈ F, f.calm = true) (hE : ∀ e u, Calm w u → E e u)
    (hf : ∀ a u, Calm w u → ProgE.Ends h (f a) u Q E) : ProgE.Ends h (x >>= f) w Q E :=
  ProgE.Ends.bind ((ends_calm hh hx hF).mono (fun _ _ hq => hq) hE) hf

theorem ends_idle (hh : h.Faithful env) {F : List Family} {x : Svc α} (hx : Touches F x)
    (hF : ∀ f ∈ F, f.idle = true) : ProgE.Ends h x w (fun _ => Idle w) (fun _ => Idle w) := by
  refine ends_of_touches hx Idle.refl (fun _ _ _ h h' => h.trans h') fun c u hc => ?_
  rcases hh c u with he | he
  · rw [he]
    exact Idle.refl u
  · rw [he]
    exact idle_exec (hF _ hc)

/-- An idle part before the part that matters. -/
theorem ends_idle_bind (hh : h.Faithful env) {F : List Family} {x : Svc α} {f : α → Svc β}
    {Q : β → World → Prop} {E : Err → World → Prop} (hx : Touches F x)
    (hF : ∀ f ∈ F, f.idle = true) (hE : ∀ e u, Idle w u → E e u)
    (hf : ∀ a u, Idle w u → ProgE.Ends h (f a) u Q E) : ProgE.Ends h (x >>= f) w Q E :=
  ProgE.Ends.bind ((ends_idle hh hx hF).mono (fun _ _ hq => hq) hE) hf

/-- A quiet part before the part that matters. -/
theorem ends_quiet_bind (hh : h.Faithful env) {F : List Family} {x : Svc α} {f : α → Svc β}
    {Q : β → World → Prop} {E : Err → World → Prop} (hx : Touches F x)
    (hF : ∀ f ∈ F, f.quiet = true) (hE : ∀ e u, Quiet w u → E e u)
    (hf : ∀ a u, Quiet w u → ProgE.Ends h (f a) u Q E) : ProgE.Ends h (x >>= f) w Q E :=
  ProgE.Ends.bind ((ends_quiet hh hx hF).mono (fun _ _ hq => hq) hE) hf

theorem streamBlob_quiet (id requesterId : String) :
    (streamBlob id requesterId).Issues fun c => c.quiet = true :=
  ((findReadable_touches id requesterId).quiet (by decide)).bind fun _ =>
    ProgE.Issues.bind ⟨rfl, fun _ => trivial⟩ fun _ => trivial

theorem streamThumbnail_quiet (id requesterId : String) :
    (streamThumbnail id requesterId).Issues fun c => c.quiet = true := by
  refine ((findReadable_touches id requesterId).quiet (by decide)).bind fun media => ?_
  split
  · exact ProgE.issues_pure _
  · exact ProgE.Issues.bind ⟨rfl, fun _ => trivial⟩ fun _ => trivial

/-- The calls that only issue quiet commands. -/
def Call.quiet : Call → Bool
  | .upload _ _ _ _ _ | .delete _ _ | .recordUpload _ _ | .recordDelete _ _
  | .resetDailyUploads => false
  | _ => true

theorem handle_quiet (env : Env) {x : Call} (hx : x.quiet = true) :
    (handle env x).Issues fun c => c.quiet = true := by
  cases x <;> simp only [Call.quiet, Bool.false_eq_true] at hx
  case streamBlob id r => exact (streamBlob_quiet id r).map
  case streamThumbnail id r => exact (streamThumbnail_quiet id r).map
  all_goals exact (handle_families env _).quiet (by simp [Call.families, Family.quiet])

end Parts

end WhisprMedia
