import Mathlib.Logic.Relation
import Mathlib.Tactic.Common

/-! The loading of the public key from the JWKS endpoint: a first loop of ten attempts with growing
delays, which hands over to a background loop. Between two events the loops stand at an `await`, at
the fetch or the body of an attempt or in the sleep between two. -/
namespace WhisprMedia

def BACKOFF_INITIAL_MS : ℕ := 1000
def BACKOFF_CAP_MS : ℕ := 30000
def BACKOFF_MAX_ATTEMPTS : ℕ := 10

structure JwkKey where
  kty : String
  use : Option String
  alg : Option String
  crv : Option String
  x : Option String
  y : Option String

structure JwksDocument where
  keys : Option (List JwkKey)

/-- Configuration and the crypto library. -/
structure JwksEnv (KeyObject : Type) where
  JWT_JWKS_URL : Option String
  createPublicKey : JwkKey → Except String KeyObject

/-- How a `fetch` settles: rejected, also by the abort timer, or with a response. -/
inductive FetchOutcome where
  | rejected (reason : String)
  | response (ok : Bool) (status : ℕ)

/-- How `response.json()` settles; the body may be `null`. -/
abbrev BodyOutcome := Except String (Option JwksDocument)

/-- The loop that waits, with its local variables. -/
inductive RetryLoop where
  | loadPublicKeyWithRetry (attempt delay : ℕ)
  | continueBackgroundRetry

/-- Where an attempt stands. -/
inductive LoadStage where
  | fetching
  | readingBody
  deriving DecidableEq

structure JwksService (KeyObject : Type) where
  publicKey : Option KeyObject
  destroyed : Bool
  sleepHandle : Option ℕ
  /-- The pending timers by their handles, with the loop that sleeps on each. -/
  timers : List (ℕ × RetryLoop)
  /-- The calls of `loadPublicKey` in flight. -/
  attempts : List (LoadStage × RetryLoop)
  /-- Counts the timers that were created. -/
  handles : ℕ
  /-- Counts the fetches that were started. -/
  fetches : ℕ

inductive JwksEvent where
  | fetched (i : ℕ) (outcome : FetchOutcome)
  | parsed (i : ℕ) (outcome : BodyOutcome)
  | timer (handle : ℕ)
  | onModuleDestroy

namespace JwksService

variable {KeyObject : Type}

/-- Before `onModuleInit`. -/
def new : JwksService KeyObject := ⟨none, false, none, [], [], 0, 0⟩

def sleep (loop : RetryLoop) (s : JwksService KeyObject) : JwksService KeyObject :=
  { s with timers := s.timers ++ [(s.handles, loop)], sleepHandle := some s.handles,
           handles := s.handles + 1 }

/-- The head of the `while` of `continueBackgroundRetry`. -/
def continueBackgroundRetry (s : JwksService KeyObject) : JwksService KeyObject :=
  if s.publicKey.isNone && !s.destroyed then s.sleep .continueBackgroundRetry else s

/-- A loop goes on after an attempt that threw. -/
def loadFailed (loop : RetryLoop) (s : JwksService KeyObject) : JwksService KeyObject :=
  match loop with
  | .loadPublicKeyWithRetry attempt delay =>
    if attempt < BACKOFF_MAX_ATTEMPTS then s.sleep (.loadPublicKeyWithRetry attempt delay)
    else s.continueBackgroundRetry
  | .continueBackgroundRetry => s.continueBackgroundRetry

/-- A loop goes on after an attempt that returned. -/
def loadReturned (loop : RetryLoop) (s : JwksService KeyObject) : JwksService KeyObject :=
  match loop with
  | .loadPublicKeyWithRetry _ _ => s
  | .continueBackgroundRetry => s.continueBackgroundRetry

/-- `loadPublicKey` up to its fetch; without a configured URL it throws at once. -/
def loadPublicKey (env : JwksEnv KeyObject) (loop : RetryLoop) (s : JwksService KeyObject) :
    JwksService KeyObject :=
  match env.JWT_JWKS_URL with
  | some _ => { s with attempts := s.attempts ++ [(.fetching, loop)], fetches := s.fetches + 1 }
  | none => s.loadFailed loop

/-- The head of the `for` of `loadPublicKeyWithRetry`. -/
def loadPublicKeyWithRetry (env : JwksEnv KeyObject) (attempt delay : ℕ)
    (s : JwksService KeyObject) : JwksService KeyObject :=
  if s.destroyed then s else s.loadPublicKey env (.loadPublicKeyWithRetry attempt delay)

/-- A loop goes on after its sleep. -/
def wake (env : JwksEnv KeyObject) (loop : RetryLoop) (s : JwksService KeyObject) :
    JwksService KeyObject :=
  match loop with
  | .loadPublicKeyWithRetry attempt delay =>
    s.loadPublicKeyWithRetry env (attempt + 1) (min (delay * 2) BACKOFF_CAP_MS)
  | .continueBackgroundRetry =>
    if s.destroyed then s else s.loadPublicKey env .continueBackgroundRetry

/-- The key that a body holds, once it is imported. -/
def importKey (env : JwksEnv KeyObject) (outcome : BodyOutcome) : Except String KeyObject :=
  match outcome with
  | .error message => .error s!"Failed to parse JWKS response: {message}"
  | .ok none => .error "Cannot read properties of null (reading 'keys')"
  | .ok (some document) =>
    match (document.keys.getD []).find? fun k =>
      k.kty = "EC" && k.crv = some "P-256" && (k.use = some "sig" || k.alg = some "ES256") with
    | none => .error "No ES256 (EC P-256) key found in JWKS document"
    | some ecKey =>
      if ecKey.x.getD "" = "" || ecKey.y.getD "" = "" then
        .error "ES256 (EC P-256) key in JWKS is missing required coordinates (x/y)"
      else
        (env.createPublicKey ecKey).mapError fun message =>
          s!"Failed to import EC public key: {message}"

def onModuleInit (env : JwksEnv KeyObject) : JwksService KeyObject :=
  new.loadPublicKeyWithRetry env 1 BACKOFF_INITIAL_MS

def onModuleDestroy (s : JwksService KeyObject) : JwksService KeyObject :=
  match s.sleepHandle with
  | some handle => { s with
      destroyed := true, timers := s.timers.filter (·.1 ≠ handle), sleepHandle := none }
  | none => { s with destroyed := true }

/-- What an event does; an event of an attempt or a timer that is not there cannot happen. -/
def next (env : JwksEnv KeyObject) (s : JwksService KeyObject) :
    JwksEvent → Option (JwksService KeyObject)
  | .fetched i outcome =>
    match s.attempts[i]? with
    | some (.fetching, loop) =>
      match outcome with
      | .response true _ => some { s with attempts := s.attempts.set i (.readingBody, loop) }
      | _ => some (loadFailed loop { s with attempts := s.attempts.eraseIdx i })
    | _ => none
  | .parsed i outcome =>
    match s.attempts[i]? with
    | some (.readingBody, loop) =>
      let s := { s with attempts := s.attempts.eraseIdx i }
      match importKey env outcome with
      | .ok key => some (loadReturned loop { s with publicKey := some key })
      | .error _ => some (s.loadFailed loop)
    | _ => none
  | .timer handle =>
    match s.timers.find? (·.1 = handle) with
    | some (_, loop) => some (wake env loop { s with timers := s.timers.filter (·.1 ≠ handle) })
    | none => none
  | .onModuleDestroy => some s.onModuleDestroy

/-- The states that events lead to. -/
def Later (env : JwksEnv KeyObject) : JwksService KeyObject → JwksService KeyObject → Prop :=
  Relation.ReflTransGen fun s s' => ∃ e, s.next env e = some s'

/-- The events of a list, one after the other. -/
def play (env : JwksEnv KeyObject) (s : JwksService KeyObject) :
    List JwksEvent → Option (JwksService KeyObject)
  | [] => some s
  | e :: es => (s.next env e).bind fun s' => s'.play env es

theorem later_of_play {env : JwksEnv KeyObject} {s s' : JwksService KeyObject} {es : List JwksEvent}
    (h : s.play env es = some s') : Later env s s' := by
  induction es generalizing s with
  | nil => exact Option.some.inj h ▸ .refl
  | cons e es ih =>
    obtain ⟨s₁, hn, h⟩ := Option.bind_eq_some_iff.mp h
    exact .head ⟨e, hn⟩ (ih h)

/-- Attempts in flight and pending timers. -/
def pending (s : JwksService KeyObject) : ℕ := s.attempts.length + s.timers.length

/-- There is one retry chain until the key is loaded or the module is destroyed, never a second
one, and none once the key is loaded. -/
structure OneChain (s : JwksService KeyObject) : Prop where
  most : s.pending ≤ 1
  alive : s.publicKey = none → s.destroyed = false → s.pending = 1
  loaded : s.publicKey.isSome → s.pending = 0

/-- What a loop does with a service in which nothing is pending and no key is loaded. -/
structure Resumes (s s' : JwksService KeyObject) : Prop where
  publicKey : s'.publicKey = none
  destroyed : s'.destroyed = s.destroyed
  most : s'.pending ≤ 1
  alive : s.destroyed = false → s'.pending = 1
  fetches : s.destroyed = true → s'.fetches = s.fetches

section Resume
variable {env : JwksEnv KeyObject} {s s' : JwksService KeyObject} {loop : RetryLoop}

theorem Resumes.oneChain (h : Resumes s s') : OneChain s' := by
  refine ⟨h.most, fun _ hd => h.alive (h.destroyed ▸ hd), fun hk => ?_⟩
  rw [h.publicKey] at hk
  exact absurd hk (by simp)

theorem resumes_refl (hk : s.publicKey = none) (hp : s.pending = 0) (hd : s.destroyed = true) :
    Resumes s s := by
  refine ⟨hk, rfl, by omega, fun h => ?_, fun _ => rfl⟩
  rw [hd] at h
  exact absurd h (by simp)

theorem resumes_sleep (hk : s.publicKey = none) (hp : s.pending = 0) : Resumes s (s.sleep loop) := by
  have hone : (s.sleep loop).pending = 1 := by
    unfold pending at hp ⊢
    simp only [sleep, List.length_append, List.length_singleton]
    omega
  exact ⟨hk, rfl, by omega, fun _ => hone, fun _ => rfl⟩

theorem resumes_background (hk : s.publicKey = none) (hp : s.pending = 0) :
    Resumes s s.continueBackgroundRetry := by
  unfold continueBackgroundRetry
  cases hd : s.destroyed with
  | true =>
    rw [if_neg (by simp)]
    exact resumes_refl hk hp hd
  | false =>
    rw [if_pos (by simp [hk])]
    exact resumes_sleep hk hp

theorem resumes_failed (hk : s.publicKey = none) (hp : s.pending = 0) :
    Resumes s (s.loadFailed loop) := by
  cases loop with
  | loadPublicKeyWithRetry attempt delay =>
    simp only [loadFailed]
    split
    · exact resumes_sleep hk hp
    · -- after the last attempt the background loop takes over
      exact resumes_background hk hp
  | continueBackgroundRetry => exact resumes_background hk hp

/-- An attempt is only made while the module is not destroyed. -/
theorem resumes_load (hk : s.publicKey = none) (hp : s.pending = 0) (hd : s.destroyed = false) :
    Resumes s (s.loadPublicKey env loop) := by
  unfold loadPublicKey
  cases env.JWT_JWKS_URL with
  | none => exact resumes_failed hk hp
  | some url =>
    have hone : s.attempts.length + 1 + s.timers.length = 1 := by
      unfold pending at hp
      omega
    refine ⟨hk, rfl, ?_, fun _ => ?_, fun h => absurd (hd.symm.trans h) (by simp)⟩
    all_goals
      simp only [pending, List.length_append, List.length_singleton]
      omega

theorem resumes_retry (hk : s.publicKey = none) (hp : s.pending = 0) (attempt delay : ℕ) :
    Resumes s (s.loadPublicKeyWithRetry env attempt delay) := by
  unfold loadPublicKeyWithRetry
  cases hd : s.destroyed with
  | true => exact resumes_refl hk hp hd
  | false => exact resumes_load hk hp hd

theorem resumes_wake (hk : s.publicKey = none) (hp : s.pending = 0) : Resumes s (s.wake env loop) := by
  cases loop with
  | loadPublicKeyWithRetry attempt delay => exact resumes_retry hk hp _ _
  | continueBackgroundRetry =>
    simp only [wake]
    cases hd : s.destroyed with
    | true => exact resumes_refl hk hp hd
    | false => exact resumes_load hk hp hd

end Resume

/-- What one event keeps: the chain, a destroyed module without new fetches, and a loaded key. -/
structure Keeps (s s' : JwksService KeyObject) : Prop where
  chain : OneChain s'
  destroyed : s.destroyed = true → s'.destroyed = true ∧ s'.fetches = s.fetches
  loaded : ∀ key, s.publicKey = some key → s'.publicKey = some key ∧ s'.fetches = s.fetches

section Steps
variable {env : JwksEnv KeyObject} {s s' : JwksService KeyObject} {loop : RetryLoop}

/-- A loop resumes once what it has waited for is gone. -/
theorem keeps_of_resumes {s₀ : JwksService KeyObject} (hk : s.publicKey = none)
    (h : Resumes s₀ s') (hd : s₀.destroyed = s.destroyed) (hf : s₀.fetches = s.fetches) :
    Keeps s s' := by
  refine ⟨h.oneChain, fun hd' => ?_, fun key hkey => ?_⟩
  · rw [h.destroyed, hd]
    exact ⟨hd', (h.fetches (hd ▸ hd')).trans hf⟩
  · rw [hk] at hkey
    exact absurd hkey (by simp)

/-- While something is pending, the key is not loaded. -/
theorem OneChain.unloaded (h : OneChain s) (hp : s.pending ≠ 0) : s.publicKey = none := by
  cases hk : s.publicKey with
  | none => rfl
  | some key => exact absurd (h.loaded (by rw [hk]; rfl)) hp

theorem OneChain.attempt (h : OneChain s) {i : ℕ} {stage : LoadStage}
    (hi : s.attempts[i]? = some (stage, loop)) : s.publicKey = none ∧ s.timers = [] ∧
      s.attempts.length = 1 ∧ s.attempts.eraseIdx i = [] := by
  have hlt := (List.getElem?_eq_some_iff.mp hi).1
  have hm := h.most
  have hpos : s.pending ≠ 0 := by
    unfold pending
    omega
  unfold pending at hm
  refine ⟨h.unloaded hpos, List.length_eq_zero_iff.mp (by omega), by omega, ?_⟩
  apply List.length_eq_zero_iff.mp
  rw [List.length_eraseIdx_of_lt hlt]
  omega

theorem OneChain.timer (h : OneChain s) {handle : ℕ} {t : ℕ × RetryLoop}
    (ht : s.timers.find? (·.1 = handle) = some t) : s.publicKey = none ∧ s.attempts = [] ∧
      s.timers.filter (·.1 ≠ handle) = [] := by
  have hmem := List.mem_of_find?_eq_some ht
  have heq : t.1 = handle := by simpa using List.find?_some ht
  have hpos := List.length_pos_of_mem hmem
  have hm := h.most
  have hne : s.pending ≠ 0 := by
    unfold pending
    omega
  unfold pending at hm
  refine ⟨h.unloaded hne, List.length_eq_zero_iff.mp (by omega), ?_⟩
  -- the timer that fires is the only one
  obtain ⟨t', hone⟩ := List.length_eq_one_iff.mp (by omega : s.timers.length = 1)
  rw [hone] at hmem ⊢
  obtain rfl := List.mem_singleton.mp hmem
  simp [heq]

theorem keeps_next (h : OneChain s) {e : JwksEvent} (hn : s.next env e = some s') : Keeps s s' := by
  cases e with
  | fetched i outcome =>
    simp only [next] at hn
    split at hn
    · next loop hi =>
      obtain ⟨hk, htimers, hone, hnil⟩ := h.attempt hi
      have hquiet : ({ s with attempts := s.attempts.eraseIdx i } : JwksService KeyObject).pending = 0 := by
        simp [pending, hnil, htimers]
      split at hn
      · -- the attempt goes on with the body
        obtain rfl := Option.some.inj hn
        have hsame : ({ s with attempts := s.attempts.set i (.readingBody, loop) } :
            JwksService KeyObject).pending = s.pending := by
          simp [pending, List.length_set]
        refine ⟨⟨hsame ▸ h.most, fun hk hd => hsame ▸ h.alive hk hd, fun hk => hsame ▸ h.loaded hk⟩,
          fun hd => ⟨hd, rfl⟩, fun key hkey => ⟨hkey, rfl⟩⟩
      · obtain rfl := Option.some.inj hn
        exact keeps_of_resumes hk (resumes_failed hk hquiet) rfl rfl
    · exact absurd hn (by simp)
  | parsed i outcome =>
    simp only [next] at hn
    split at hn
    · next loop hi =>
      obtain ⟨hk, htimers, hone, hnil⟩ := h.attempt hi
      have hquiet : ({ s with attempts := s.attempts.eraseIdx i } : JwksService KeyObject).pending = 0 := by
        simp [pending, hnil, htimers]
      split at hn
      · next key _ =>
        -- the key is loaded, and neither loop goes on
        have hend : loadReturned loop { s with attempts := s.attempts.eraseIdx i, publicKey := some key } =
            { s with attempts := s.attempts.eraseIdx i, publicKey := some key } := by
          cases loop <;> simp [loadReturned, continueBackgroundRetry]
        rw [hend] at hn
        obtain rfl := Option.some.inj hn
        have hzero : ({ s with attempts := s.attempts.eraseIdx i, publicKey := some key } :
            JwksService KeyObject).pending = 0 := hquiet
        refine ⟨⟨by omega, fun hk => absurd hk (by simp), fun _ => hzero⟩, fun hd => ⟨hd, rfl⟩,
          fun key' hkey => ?_⟩
        rw [hk] at hkey
        exact absurd hkey (by simp)
      · obtain rfl := Option.some.inj hn
        exact keeps_of_resumes hk (resumes_failed hk hquiet) rfl rfl
    · exact absurd hn (by simp)
  | timer handle =>
    simp only [next] at hn
    split at hn
    · next t loop ht =>
      obtain ⟨hk, hattempts, hnil⟩ := h.timer ht
      obtain rfl := Option.some.inj hn
      have hquiet : ({ s with timers := s.timers.filter (·.1 ≠ handle) } :
          JwksService KeyObject).pending = 0 := by
        simp only [pending, hnil, hattempts, List.length_nil]
      exact keeps_of_resumes hk (resumes_wake hk hquiet) rfl rfl
    · exact absurd hn (by simp)
  | onModuleDestroy =>
    obtain rfl := Option.some.inj hn
    unfold onModuleDestroy
    cases s.sleepHandle with
    | none =>
      exact ⟨⟨h.most, fun _ hd => absurd hd (by simp), h.loaded⟩, fun _ => ⟨rfl, rfl⟩,
        fun key hkey => ⟨hkey, rfl⟩⟩
    | some handle =>
      -- destroy can only take timers away
      have hle : s.attempts.length + (s.timers.filter (·.1 ≠ handle)).length ≤ s.pending := by
        have hf := List.length_filter_le (fun t => decide (t.1 ≠ handle)) s.timers
        unfold pending
        omega
      refine ⟨⟨Nat.le_trans hle h.most, fun _ hd => absurd hd (by simp), fun hk => ?_⟩,
        fun _ => ⟨rfl, rfl⟩, fun key hkey => ⟨hkey, rfl⟩⟩
      have hzero := h.loaded hk
      exact Nat.le_zero.mp (hzero ▸ hle)

theorem oneChain_init : OneChain (onModuleInit env) := by
  have hnew : (new : JwksService KeyObject).pending = 0 := rfl
  exact (resumes_retry rfl hnew 1 BACKOFF_INITIAL_MS).oneChain

/-- What a run keeps. -/
theorem keeps_later (h : OneChain s) (hl : Later env s s') : Keeps s s' := by
  induction hl with
  | refl => exact ⟨h, fun hd => ⟨hd, rfl⟩, fun key hkey => ⟨hkey, rfl⟩⟩
  | tail _ hn ih =>
    obtain ⟨e, hn⟩ := hn
    have hstep := keeps_next ih.chain hn
    refine ⟨hstep.chain, fun hd => ?_, fun key hkey => ?_⟩
    · obtain ⟨hd', hf⟩ := ih.destroyed hd
      obtain ⟨hd'', hf'⟩ := hstep.destroyed hd'
      exact ⟨hd'', hf'.trans hf⟩
    · obtain ⟨hkey', hf⟩ := ih.loaded key hkey
      obtain ⟨hkey'', hf'⟩ := hstep.loaded key hkey'
      exact ⟨hkey'', hf'.trans hf⟩

end Steps

end JwksService

open JwksService in
/-- Until the key is loaded or the module is destroyed, exactly one attempt or retry timer is
pending; a destroyed module starts no fetch; a loaded key stays, and nothing is fetched again. -/
theorem jwks_loading {KeyObject : Type} (env : JwksEnv KeyObject) (s : JwksService KeyObject)
    (h : Later env (onModuleInit env) s) :
    (s.publicKey = none → s.destroyed = false → s.attempts.length + s.timers.length = 1) ∧
    (s.destroyed = true → ∀ s', Later env s s' → s'.fetches = s.fetches) ∧
    ∀ key, s.publicKey = some key → ∀ s', Later env s s' →
      s'.publicKey = some key ∧ s'.fetches = s.fetches := by
  have hchain := (keeps_later oneChain_init h).chain
  refine ⟨hchain.alive, fun hd s' hl => ?_, fun key hkey s' hl => ?_⟩
  · exact ((keeps_later hchain hl).destroyed hd).2
  · exact (keeps_later hchain hl).loaded key hkey

/-- A deployment whose crypto library takes every key. -/
def exampleJwks : JwksEnv String := ⟨some "http://auth/jwks.json", fun k => .ok (k.x.getD "")⟩

open JwksService in
/-- The first fetch fails, the second is answered with a key. -/
theorem jwks_loading_second_attempt : ∃ s : JwksService String,
    Later exampleJwks (onModuleInit exampleJwks) s ∧ s.publicKey = some "AQ" ∧ s.fetches = 2 ∧
      ∀ s', Later exampleJwks s s' → s'.publicKey = some "AQ" ∧ s'.fetches = 2 := by
  have hplay : (onModuleInit exampleJwks).play exampleJwks
      [.fetched 0 (.rejected "timed out after 5000ms"), .timer 0, .fetched 0 (.response true 200),
        .parsed 0 (.ok (some ⟨some [⟨"EC", some "sig", none, some "P-256", some "AQ", some "Ag"⟩]⟩))] =
      some ⟨some "AQ", false, some 0, [], [], 1, 2⟩ := by
    rfl
  have hrun := later_of_play hplay
  exact ⟨_, hrun, rfl, rfl, (jwks_loading exampleJwks _ hrun).2.2 "AQ" rfl⟩

end WhisprMedia
