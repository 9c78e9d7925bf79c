import WhisprMedia.Ownership

/-! The lifetime of the URLs that `getBlob` signs. An expiry is kept in the row and outlives the
process that wrote it, so the lifetime of a later URL is bounded over clock steps and restarts with
other settings, not over one call. -/
namespace WhisprMedia
open Awaiting MediaService

/-- `SIGNED_URL_EXPIRY_SECONDS` as the schema of the environment admits it. -/
def SettingValid (cfg : Int) : Prop := 1 ≤ cfg ∧ cfg ≤ 604800

instance (cfg : Int) : Decidable (SettingValid cfg) := inferInstanceAs (Decidable (_ ∧ _))

def Env.withSetting (env : Env) (cfg : Int) : Env := { env with SIGNED_URL_EXPIRY_SECONDS := cfg }

/-- The process under one setting; an act sets the clock to any value. -/
def blobService (env : Env) (cfg : Int) : System Cmd Cmd.Reply World Call Int (Except Err Reply) :=
  (service (env.withSetting cfg)).withActs fun time w => { w with now := time }

/-- Calls of `getBlob`, clock steps and restarts with other settings; a restart ends the calls in
progress. Processes, clock steps and restarts lead to states that `ok` admits. -/
inductive BlobRuns (env : Env) (ok : Int → ServicePool → Prop) : Int → ServicePool → Prop
  | boot {cfg w} : SettingValid cfg → ok cfg ⟨w, []⟩ → BlobRuns env ok cfg ⟨w, []⟩
  | call {cfg p q id requesterId} : BlobRuns env ok cfg p →
    (blobService env cfg).next p (.call (.getBlob id requesterId)) = some q → BlobRuns env ok cfg q
  | step {cfg p q i} : BlobRuns env ok cfg p → (blobService env cfg).next p (.step i) = some q →
    BlobRuns env ok cfg q
  | clock {cfg p q time} : BlobRuns env ok cfg p →
    (blobService env cfg).next p (.act time) = some q → ok cfg q → BlobRuns env ok cfg q
  | restart {cfg cfg' p} : BlobRuns env ok cfg p → SettingValid cfg' → ok cfg' ⟨p.world, []⟩ →
    BlobRuns env ok cfg' ⟨p.world, []⟩

/-! What is kept and what is read -/

/-- The expiry of a row that a call has read. -/
def ReadExpiry (log : ServiceLog) (expiry : Int) : Prop :=
  ∃ user id m, (⟨.findMedia user id, .ok (some m)⟩ : Event Cmd Cmd.Reply) ∈ log ∧
    m.signedUrlExpiresAt = some expiry

/-- A time that a call has read. -/
def ReadClock (log : ServiceLog) (now : Int) : Prop :=
  (⟨.now, .ok now⟩ : Event Cmd Cmd.Reply) ∈ log

/-- Neither a row nor a running call holds an expiry whose remaining seconds, rounded down, exceed
the setting, or a time a whole second ahead of the clock. -/
structure NothingAhead (cfg : Int) (p : ServicePool) : Prop where
  rows : ∀ m ∈ p.world.media.rows, ∀ expiry, m.signedUrlExpiresAt = some expiry →
    expiry < p.world.now + (cfg + 1) * 1000
  expiries : ∀ t ∈ p.threads, t.outcome = none → ∀ expiry, ReadExpiry t.log expiry →
    expiry < p.world.now + (cfg + 1) * 1000
  clocks : ∀ t ∈ p.threads, t.outcome = none → ∀ now, ReadClock t.log now →
    now < p.world.now + 1000

/-! The steps of one call -/

/-- What `getBlob` may issue after a log: the lifetime that is signed and the expiry that is kept
come from the setting or from what was read. -/
def BlobStep (cfg : Int) (log : ServiceLog) : Cmd → Prop
  | .findMedia _ _ => log = []
  | .now => True
  | .presign _ expiresIn => expiresIn = cfg ∨ ∃ expiry now, ReadExpiry log expiry ∧
      ReadClock log now ∧ now < expiry ∧ expiresIn = max 1 ((expiry - now) / 1000)
  | .updateSignedUrlExpiry _ _ expiry => ∃ now, ReadClock log now ∧ expiry = now + cfg * 1000
  | _ => False

section Steps
variable {env : Env} {cfg : ℤ} {id r : String} {log : ServiceLog}

theorem findReadable_found {media : Media} {l : ServiceLog}
    (h : (findReadable id r).run.Follows l (.pure (.ok media))) : Found l media := by
  rcases ProgE.follows_of_bind h with ⟨e, -, hr⟩ | ⟨m, l₁, l₂, rfl, h₁, h₂⟩
  · exact absurd hr (by simp)
  · -- the check of the reader issues nothing and keeps the row
    have hm : l₂ = [] ∧ m = media := by
      cases hc : enforceReadAccess m.context m.ownerId m.sharedWith r with
      | ok a =>
        rw [hc] at h₂
        obtain ⟨hl, hp⟩ := Prog.Follows.of_pure h₂
        exact ⟨hl, (Except.ok.inj (Prog.pure.inj hp)).symm⟩
      | error e =>
        rw [hc] at h₂
        exact absurd (Prog.pure.inj (Prog.Follows.of_pure h₂).2) (by simp)
    obtain ⟨rfl, rfl⟩ := hm
    rw [List.append_nil]
    exact findActive_found h₁

theorem findReadable_step : (findReadable id r).IssuesAfter (BlobStep cfg) [] := by
  refine ProgE.IssuesAfter.bind (ProgE.IssuesAfter.bind (ProgE.issuesAfter_issue rfl)
    fun found l hl => ?_) fun media l _ => ?_
  · cases found with
    | none => exact ProgE.issuesAfter_throw _
    | some m => exact ProgE.issuesAfter_pure _
  · cases enforceReadAccess media.context media.ownerId media.sharedWith r with
    | ok a => trivial
    | error e => trivial

theorem getBlob_step : (getBlob (env.withSetting cfg) id r).IssuesAfter (BlobStep cfg) [] := by
  refine findReadable_step.bind fun media l hl => ?_
  obtain ⟨user, i, hfound⟩ := findReadable_found hl
  rw [List.nil_append]
  refine ProgE.IssuesAfter.bind (ProgE.issuesAfter_issue trivial) fun now l' hl' => ?_
  rw [follows_await hl']
  have hclock : ReadClock (l ++ [⟨.now, .ok now⟩]) now :=
    List.mem_append_right _ (List.mem_singleton_self _)
  split
  · next expiry hexp =>
    obtain ⟨hexp, hlt⟩ := Option.filter_eq_some_iff.mp hexp
    have hread : ReadExpiry (l ++ [⟨.now, .ok now⟩]) expiry :=
      ⟨user, i, media, List.mem_append_left _ hfound, hexp⟩
    refine ProgE.IssuesAfter.bind (ProgE.issuesAfter_issue (Or.inr ?_)) fun _ _ _ =>
      ProgE.issuesAfter_pure _
    exact ⟨expiry, now, hread, hclock, of_decide_eq_true hlt, rfl⟩
  · refine ProgE.IssuesAfter.bind (ProgE.issuesAfter_issue (Or.inl rfl)) fun _ l'' _ => ?_
    refine ProgE.IssuesAfter.bind (ProgE.issuesAfter_issue ?_) fun _ _ _ => ProgE.issuesAfter_pure _
    exact ⟨now, List.mem_append_left _ hclock, rfl⟩

end Steps

/-! The invariant -/

/-- A call under this setting: its steps to come, and what it has read and signed. -/
structure BlobThread (cfg : Int) (t : ServiceThread) : Prop where
  steps : Prog.IssuesAfter (BlobStep cfg) t.log t.rest
  spans : ∀ expiry now, ReadExpiry t.log expiry → ReadClock t.log now →
    expiry < now + (cfg + 1) * 1000
  signed : ∀ key expiresIn r, (⟨.presign key expiresIn, r⟩ : Event Cmd Cmd.Reply) ∈ t.log →
    1 ≤ expiresIn ∧ expiresIn ≤ cfg

structure BlobInv (cfg : Int) (p : ServicePool) : Prop where
  valid : SettingValid cfg
  ahead : NothingAhead cfg p
  threads : ∀ t ∈ p.threads, BlobThread cfg t

section Invariant
variable {env : Env} {cfg : ℤ} {p q : ServicePool} {w : World} {log : ServiceLog} {c : Cmd}

theorem readExpiry_snoc {e : Event Cmd Cmd.Reply} {expiry : ℤ}
    (h : ReadExpiry (log ++ [e]) expiry) : ReadExpiry log expiry ∨ ∃ user id m,
      e = ⟨.findMedia user id, .ok (some m)⟩ ∧ m.signedUrlExpiresAt = some expiry := by
  obtain ⟨user, id, m, hmem, hexp⟩ := h
  rcases List.mem_append.mp hmem with hmem | hmem
  · exact Or.inl ⟨user, id, m, hmem, hexp⟩
  · exact Or.inr ⟨user, id, m, (List.mem_singleton.mp hmem).symm, hexp⟩

theorem readClock_snoc {e : Event Cmd Cmd.Reply} {now : ℤ} (h : ReadClock (log ++ [e]) now) :
    ReadClock log now ∨ e = ⟨.now, .ok now⟩ := by
  rcases List.mem_append.mp h with hmem | hmem
  · exact Or.inl hmem
  · exact Or.inr (List.mem_singleton.mp hmem).symm

/-- What a lookup finds is a row of the table. -/
theorem mem_rows_of_findMedia {user id : String} {m : Media}
    (h : (env.exec (.findMedia user id) w).1 = .ok (some m)) : m ∈ w.media.rows := by
  simp only [Env.exec] at h
  split at h
  · next i _ _ =>
    have hget := (Option.filter_eq_some_iff.mp (Except.ok.inj h)).1
    exact (Keyed.Table.get_some.mp hget).1
  · exact absurd h (by simp)

/-- A step of `getBlob` keeps every expiry near the clock. -/
theorem exec_blobStep (hc : BlobStep cfg log c)
    (hclock : ∀ now, ReadClock log now → now < w.now + 1000)
    (hrows : ∀ m ∈ w.media.rows, ∀ expiry, m.signedUrlExpiresAt = some expiry →
      expiry < w.now + (cfg + 1) * 1000) :
    (env.exec c w).2.now = w.now ∧ ∀ m ∈ (env.exec c w).2.media.rows, ∀ expiry,
      m.signedUrlExpiresAt = some expiry → expiry < w.now + (cfg + 1) * 1000 := by
  cases c with
  | findMedia user id =>
    simp only [Env.exec]
    split <;> exact ⟨rfl, hrows⟩
  | now => exact ⟨rfl, hrows⟩
  | presign key expiresIn => exact ⟨rfl, hrows⟩
  | updateSignedUrlExpiry user id expiry =>
    obtain ⟨now, hnow, rfl⟩ := hc
    have hlt := hclock now hnow
    simp only [Env.exec]
    split
    · refine ⟨rfl, fun m hm expiry hexp => ?_⟩
      obtain ⟨m₀, hm₀, rfl⟩ := List.mem_map.mp hm
      -- the row that is written gets the new expiry, every other row keeps its own
      split at hexp
      · dsimp only at hexp
        split at hexp
        · obtain rfl := Option.some.inj hexp
          omega
        · exact hrows m₀ hm₀ expiry hexp
      · exact hrows m₀ hm₀ expiry hexp
    · exact ⟨rfl, hrows⟩
  | _ => exact hc.elim

/-- What a call reads in one step is a row, or the clock. -/
theorem reads_of_blobStep {now expiry : ℤ}
    (hrows : ∀ m ∈ w.media.rows, ∀ expiry, m.signedUrlExpiresAt = some expiry →
      expiry < w.now + (cfg + 1) * 1000) :
    (ReadExpiry (log ++ [⟨c, (env.exec c w).1⟩]) expiry →
      ReadExpiry log expiry ∨ expiry < w.now + (cfg + 1) * 1000 ∧ ∃ user id, c = .findMedia user id) ∧
    (ReadClock (log ++ [⟨c, (env.exec c w).1⟩]) now → ReadClock log now ∨ now = w.now ∧ c = .now) := by
  constructor
  · intro h
    rcases readExpiry_snoc h with h | ⟨user, id, m, he, hexp⟩
    · exact Or.inl h
    · obtain ⟨rfl, hr⟩ := Sigma.mk.inj he
      exact Or.inr ⟨hrows m (mem_rows_of_findMedia (eq_of_heq hr)) expiry hexp, user, id, rfl⟩
  · intro h
    rcases readClock_snoc h with h | he
    · exact Or.inl h
    · obtain ⟨rfl, hr⟩ := Sigma.mk.inj he
      exact Or.inr ⟨(Except.ok.inj (eq_of_heq hr)).symm, rfl⟩

/-- The lifetime that a step signs lies within the setting. -/
theorem signed_of_blobStep {t : ServiceThread} (hvalid : SettingValid cfg) (ht : BlobThread cfg t)
    {key : String} {expiresIn : ℤ} (hc : BlobStep cfg t.log (.presign key expiresIn)) :
    1 ≤ expiresIn ∧ expiresIn ≤ cfg := by
  obtain ⟨hpos, -⟩ := hvalid
  rcases hc with rfl | ⟨expiry, now, hexp, hnow, -, rfl⟩
  · exact ⟨hpos, Int.le_refl _⟩
  · have hlt := ht.spans expiry now hexp hnow
    have hdiv : (expiry - now) / 1000 < cfg + 1 :=
      Int.ediv_lt_of_lt_mul (by omega) (by omega)
    omega

theorem BlobThread.step {x : Call} {k : c.Reply → Prog Cmd Cmd.Reply (Except Err Reply)}
    (hp : BlobInv cfg p) (hmem : ⟨x, log, .step c k⟩ ∈ p.threads) :
    BlobThread cfg ⟨x, log ++ [⟨c, (env.exec c p.world).1⟩], k (env.exec c p.world).1⟩ := by
  have ht := hp.threads _ hmem
  have hc : BlobStep cfg log c := ht.steps.1
  refine ⟨ht.steps.2 _, fun expiry now hexp hnow => ?_, fun key expiresIn r hr => ?_⟩
  · have hreads := @reads_of_blobStep env cfg p.world log c now expiry hp.ahead.rows
    rcases hreads.1 hexp with hexp | ⟨-, user, id, rfl⟩
    · rcases hreads.2 hnow with hnow | ⟨rfl, -⟩
      · exact ht.spans expiry now hexp hnow
      · exact hp.ahead.expiries _ hmem rfl expiry hexp
    · -- a row is looked up before the clock is read
      have hnil : log = [] := hc
      subst hnil
      rcases hreads.2 hnow with hnow | ⟨-, hcmd⟩
      · exact absurd hnow List.not_mem_nil
      · exact absurd hcmd (by simp)
  · rcases List.mem_append.mp hr with hr | hr
    · exact ht.signed key expiresIn r hr
    · obtain ⟨rfl, -⟩ := Sigma.mk.inj (List.mem_singleton.mp hr)
      exact signed_of_blobStep hp.valid ht hc

/-- A step of a thread keeps the invariant. -/
theorem BlobInv.step {i : ℕ} (hp : BlobInv cfg p) (h : (blobService env cfg).next p (.step i) = some q) :
    BlobInv cfg q := by
  rcases System.next_cases h with ⟨x, hl, -⟩ | ⟨a, hl, -⟩ |
    ⟨j, pre, post, x, log, c, k, -, hts, -, rfl⟩
  · exact absurd hl (by simp)
  · exact absurd hl (by simp)
  have hmem : (⟨x, log, .step c k⟩ : ServiceThread) ∈ p.threads := by simp [hts]
  have hc : BlobStep cfg log c := (hp.threads _ hmem).steps.1
  have hforks : (blobService env cfg).forks c = [] := by
    cases c with
    | spawnQuotaAlert userId => exact hc.elim
    | _ => rfl
  obtain ⟨hnow, hrows⟩ := @exec_blobStep (env.withSetting cfg) cfg _ _ _ hc
    (hp.ahead.clocks _ hmem rfl) hp.ahead.rows
  have hexec : (blobService env cfg).exec = (env.withSetting cfg).exec := rfl
  rw [hforks, List.map_nil, List.append_nil, hexec]
  -- the threads afterwards are the one that moved and others that were there
  have hthreads {t : ServiceThread} (ht : t ∈ pre ++ (⟨x, log ++ [⟨c, ((env.withSetting cfg).exec c
      p.world).1⟩], k ((env.withSetting cfg).exec c p.world).1⟩ : ServiceThread) :: post) :
      t ∈ p.threads ∨ t = ⟨x, log ++ [⟨c, ((env.withSetting cfg).exec c p.world).1⟩],
        k ((env.withSetting cfg).exec c p.world).1⟩ := by
    rw [hts]
    simp only [List.mem_append, List.mem_cons] at ht ⊢
    tauto
  refine ⟨hp.valid, ⟨?_, fun t ht hrun expiry hexp => ?_, fun t ht hrun now hclock => ?_⟩,
    fun t ht => ?_⟩
  · intro m hm expiry hexp
    show expiry < ((env.withSetting cfg).exec c p.world).2.now + (cfg + 1) * 1000
    rw [hnow]
    exact hrows m hm expiry hexp
  · show expiry < ((env.withSetting cfg).exec c p.world).2.now + (cfg + 1) * 1000
    rw [hnow]
    rcases hthreads ht with ht | rfl
    · exact hp.ahead.expiries t ht hrun expiry hexp
    · rcases (@reads_of_blobStep _ cfg _ _ _ 0 expiry hp.ahead.rows).1 hexp with hexp | ⟨hlt, -⟩
      · exact hp.ahead.expiries _ hmem rfl expiry hexp
      · exact hlt
  · show now < ((env.withSetting cfg).exec c p.world).2.now + 1000
    rw [hnow]
    rcases hthreads ht with ht | rfl
    · exact hp.ahead.clocks t ht hrun now hclock
    · rcases (@reads_of_blobStep _ cfg _ _ _ now 0 hp.ahead.rows).2 hclock with hclock | ⟨rfl, -⟩
      · exact hp.ahead.clocks _ hmem rfl now hclock
      · omega
  · rcases hthreads ht with ht | rfl
    · exact hp.threads t ht
    · exact BlobThread.step hp hmem

/-- A call that arrives has read nothing yet. -/
theorem BlobInv.call {id r : String} (hp : BlobInv cfg p)
    (h : (blobService env cfg).next p (.call (.getBlob id r)) = some q) : BlobInv cfg q := by
  obtain rfl := Option.some.inj h
  have hthreads {t : ServiceThread} (ht : t ∈ p.threads ++ [(blobService env cfg).start
      (.getBlob id r)]) : t ∈ p.threads ∨ t = (blobService env cfg).start (.getBlob id r) := by
    simpa only [List.mem_append, List.mem_singleton] using ht
  refine ⟨hp.valid, ⟨hp.ahead.rows, fun t ht hrun => ?_, fun t ht hrun => ?_⟩, fun t ht => ?_⟩
  · rcases hthreads ht with ht | rfl
    · exact hp.ahead.expiries t ht hrun
    · rintro expiry ⟨_, _, _, hmem, -⟩
      exact absurd hmem List.not_mem_nil
  · rcases hthreads ht with ht | rfl
    · exact hp.ahead.clocks t ht hrun
    · intro now hmem
      exact absurd hmem List.not_mem_nil
  · rcases hthreads ht with ht | rfl
    · exact hp.threads t ht
    · refine ⟨?_, fun _ _ h => ?_, fun _ _ _ h => absurd h List.not_mem_nil⟩
      · have hsteps : ((fun dto => Reply.blobUrl dto) <$> getBlob (env.withSetting cfg) id r).IssuesAfter
            (BlobStep cfg) [] := getBlob_step.map
        exact hsteps
      · obtain ⟨_, _, _, hmem, -⟩ := h
        exact absurd hmem List.not_mem_nil

/-- A process starts without calls. -/
theorem BlobInv.boot (hvalid : SettingValid cfg) (hahead : NothingAhead cfg ⟨w, []⟩) :
    BlobInv cfg ⟨w, []⟩ := ⟨hvalid, hahead, fun _ ht => absurd ht List.not_mem_nil⟩

theorem BlobRuns.inv (h : BlobRuns env NothingAhead cfg p) : BlobInv cfg p := by
  induction h with
  | boot hvalid hok => exact .boot hvalid hok
  | call _ hn ih => exact ih.call hn
  | step _ hn ih => exact ih.step hn
  | clock _ hn hok ih =>
    obtain rfl := Option.some.inj hn
    exact ⟨ih.valid, hok, fun t ht => ih.threads t ht⟩
  | restart _ hvalid hok => exact .boot hvalid hok

end Invariant

/-! Clock steps and restarts that are harmless -/

section Harmless
variable {env : Env} {cfg cfg' : ℤ} {p q : ServicePool}

/-- A clock that moves on leaves nothing further ahead. -/
theorem NothingAhead.later {now : ℤ} (h : NothingAhead cfg p) (hle : p.world.now ≤ now) :
    NothingAhead cfg { p with world := { p.world with now := now } } := by
  refine ⟨fun m hm expiry hexp => ?_, fun t ht hrun expiry hexp => ?_, fun t ht hrun time hc => ?_⟩
  · have hlt := h.rows m hm expiry hexp
    show expiry < now + (cfg + 1) * 1000
    omega
  · have hlt := h.expiries t ht hrun expiry hexp
    show expiry < now + (cfg + 1) * 1000
    omega
  · have hlt := h.clocks t ht hrun time hc
    show time < now + 1000
    omega

/-- A restart with a setting that is not lower leaves nothing ahead of it. -/
theorem NothingAhead.restarted (h : NothingAhead cfg p) (hle : cfg ≤ cfg') :
    NothingAhead cfg' ⟨p.world, []⟩ := by
  refine ⟨fun m hm expiry hexp => ?_, fun _ ht => absurd ht List.not_mem_nil,
    fun _ ht => absurd ht List.not_mem_nil⟩
  have hlt := h.rows m hm expiry hexp
  show expiry < p.world.now + (cfg' + 1) * 1000
  omega

/-- Only calls of `getBlob` arrive, and the clock stands. -/
def getsBlob : Label Call Int → Bool
  | .call (.getBlob _ _) | .step _ => true
  | _ => false

theorem BlobRuns.trans {ok : ℤ → ServicePool → Prop} (h : BlobRuns env ok cfg p)
    (hr : (blobService env cfg).Runs (fun _ l => getsBlob l = true) p q) : BlobRuns env ok cfg q := by
  induction hr with
  | refl => exact h
  | @tail q q' l _ hl hn ih =>
    cases l with
    | call x =>
      cases x with
      | getBlob id requesterId => exact ih.call hn
      | _ => exact absurd hl (by simp [getsBlob])
    | step i => exact ih.step hn
    | act a => exact absurd hl (by simp [getsBlob])

end Harmless

/-- Where no restart and no clock step leaves an expiry more than the setting ahead of the clock,
every lifetime that is signed lies between one second and the setting. -/
theorem signed_lifetimes_bounded (env : Env) (cfg : ℤ) (p : ServicePool)
    (h : BlobRuns env NothingAhead cfg p) (t : ServiceThread) (ht : t ∈ p.threads) (key : String)
    (expiresIn : ℤ) (r : Except String SignedUrl)
    (hsigned : (⟨.presign key expiresIn, r⟩ : Event Cmd Cmd.Reply) ∈ t.log) :
    1 ≤ expiresIn ∧ expiresIn ≤ cfg :=
  (h.inv.threads t ht).signed key expiresIn r hsigned

/-- An avatar whose URL has not been signed yet. -/
def freshAvatar : Media where
  id := exampleId 1
  ownerId := exampleId 0
  context := "avatar"
  storagePath := s!"avatars/{exampleId 0}/{exampleId 1}.bin"
  thumbnailPath := none
  contentType := "image/png"
  blobSize := 3
  expiresAt := none
  signedUrlExpiresAt := none
  isActive := true
  sharedWith := none
  createdAt := 0

def freshAvatarWorld : World := { World.empty with media := Keyed.Table.empty.insert freshAvatar }

/-- A log that signs this lifetime. -/
def Signs (expiresIn : Int) (log : ServiceLog) : Prop :=
  ∃ key r, (⟨.presign key expiresIn, r⟩ : Event Cmd Cmd.Reply) ∈ log

/-- A decidable form of it. -/
def signs (expiresIn : Int) (log : ServiceLog) : Bool := log.any fun e =>
  match e.1 with
  | .presign _ n => n = expiresIn
  | _ => false

theorem signs_iff {expiresIn : ℤ} {log : ServiceLog} (h : signs expiresIn log = true) :
    Signs expiresIn log := by
  obtain ⟨⟨c, r⟩, he, hc⟩ := List.any_eq_true.mp h
  cases c with
  | presign key n =>
    obtain rfl := of_decide_eq_true hc
    exact ⟨key, r, he⟩
  | _ => exact absurd hc (by simp)

/-- The owner asks for the blob. -/
def blobOfOwner : List (Label Call Int) :=
  [.call (.getBlob (exampleId 1) (exampleId 0)), .step 0, .step 0, .step 0, .step 0]

/-- A URL for an hour, ten minutes later a restart with a setting of a day, and the URL of the expiry
that is stored. -/
theorem signed_lifetimes_bounded_restarted : ∃ p t, t ∈ p.threads ∧ Signs 3000 t.log ∧
    BlobRuns exampleEnv NothingAhead 86400 p ∧ (1 : ℤ) ≤ 3000 ∧ (3000 : ℤ) ≤ 86400 := by
  have hplay : (((blobService exampleEnv 3600).play (fun _ l => getsBlob l = true)
      ⟨freshAvatarWorld, []⟩ blobOfOwner).any fun p =>
        ((blobService exampleEnv 86400).play (fun _ l => getsBlob l = true)
          ⟨{ p.world with now := 600000 }, []⟩ (blobOfOwner.take 4)).any fun q =>
            p.world.now = 0 && q.threads.any fun t => signs 3000 t.log) = true := by
    decide +kernel
  simp only [Option.any_eq_true, Bool.and_eq_true, List.any_eq_true, decide_eq_true_eq] at hplay
  obtain ⟨p, hp, q, hq, hnow, t, ht, hsigns⟩ := hplay
  have hahead : NothingAhead 3600 ⟨freshAvatarWorld, []⟩ := by
    refine ⟨fun m hm expiry hexp => ?_, fun _ ht => absurd ht List.not_mem_nil,
      fun _ ht => absurd ht List.not_mem_nil⟩
    obtain rfl := List.mem_singleton.mp hm
    exact absurd hexp (by simp [freshAvatar])
  have hhour : BlobRuns exampleEnv NothingAhead 3600 p :=
    (BlobRuns.boot (by decide) hahead).trans (System.runs_of_play hp)
  -- ten minutes pass, and the new setting is not lower
  have hlater : BlobRuns exampleEnv NothingAhead 3600
      { p with world := { p.world with now := 600000 } } :=
    hhour.clock rfl (hhour.inv.ahead.later (by rw [hnow]; decide))
  have hday : BlobRuns exampleEnv NothingAhead 86400 q :=
    (hlater.restart (by decide) (hlater.inv.ahead.restarted (by decide))).trans
      (System.runs_of_play hq)
  obtain ⟨key, r, he⟩ := signs_iff hsigns
  exact ⟨q, t, ht, ⟨key, r, he⟩, hday, signed_lifetimes_bounded exampleEnv 86400 q hday t ht key _ r he⟩

/-- After a restart that lowers the setting from a week to an hour, a URL for a week is signed. -/
theorem signed_lifetime_overlong : ∃ p t, BlobRuns exampleEnv (fun _ _ => True) 3600 p ∧
    t ∈ p.threads ∧ Signs 604800 t.log := by
  have hplay : (((blobService exampleEnv 604800).play (fun _ l => getsBlob l = true)
      ⟨freshAvatarWorld, []⟩ blobOfOwner).any fun p => ((blobService exampleEnv 3600).play
        (fun _ l => getsBlob l = true) ⟨p.world, []⟩ (blobOfOwner.take 4)).any fun q =>
          q.threads.any fun t => signs 604800 t.log) = true := by
    decide +kernel
  simp only [Option.any_eq_true, List.any_eq_true] at hplay
  obtain ⟨p, hp, q, hq, t, ht, hsigns⟩ := hplay
  have hweek : BlobRuns exampleEnv (fun _ _ => True) 604800 p :=
    (BlobRuns.boot (by decide) trivial).trans (System.runs_of_play hp)
  exact ⟨q, t, (hweek.restart (by decide) trivial).trans (System.runs_of_play hq), ht,
    signs_iff hsigns⟩

end WhisprMedia
