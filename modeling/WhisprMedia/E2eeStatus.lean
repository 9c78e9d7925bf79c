import WhisprMedia.LocalInvariants
import WhisprMedia.MediaController

/-! The E2EE status of conversations: a Redis entry of 60 seconds in front of a request to
messaging-service, which an abort timer bounds. Redis answers at once; a request is sent by one
command and answered to a later one, and the time between the two is all that passes in a call. -/
namespace WhisprMedia
open Awaiting

def E2EE_STATUS_CACHE_TTL_MS : ℕ := 60000

structure MessagingEnv where
  MESSAGING_SERVICE_URL : Option String
  MESSAGING_SERVICE_TIMEOUT_MS : ℕ

/-- How a request settles: a response with its status and `e2ee_enabled` in its body, if it has a
body, or a rejection, also by the abort timer. -/
inductive E2eeResponse where
  | response (status : ℕ) (body : Except String (Option Bool))
  | rejected (reason : String)

inductive MessagingCmd where
  | getStatus (key : String)
  | setStatus (key : String) (value : Bool) (ttl : ℕ)
  /-- The request about a conversation leaves the service. -/
  | request (conversationId : String)
  /-- The request with this number settles. -/
  | response (id : ℕ)
  deriving DecidableEq

abbrev MessagingCmd.Value : MessagingCmd → Type
  | .getStatus _ => Option Bool
  | .setStatus _ _ _ => Unit
  | .request _ => ℕ
  | .response _ => E2eeResponse

structure MessagingWorld where
  now : ℤ
  /-- The cached statuses, with the time they expire at. -/
  statuses : String → Option (Bool × ℤ)
  /-- The requests that were sent: the conversation and the time. -/
  sent : List (String × ℤ)
  /-- What has arrived for each request. -/
  arrived : ℕ → Option E2eeResponse

/-- Nothing cached and nothing sent. -/
def MessagingWorld.start (now : ℤ) : MessagingWorld := ⟨now, fun _ => none, [], fun _ => none⟩

def MessagingCmd.exec (c : MessagingCmd) (w : MessagingWorld) : c.Value × MessagingWorld :=
  match c with
  | .getStatus key => (((w.statuses key).filter fun entry => w.now < entry.2).map (·.1), w)
  | .setStatus key value ttl =>
    ((), { w with statuses := Function.update w.statuses key (some (value, w.now + ttl)) })
  | .request conversationId => (w.sent.length, { w with sent := w.sent ++ [(conversationId, w.now)] })
  | .response id => ((w.arrived id).getD (.rejected "This operation was aborted"), w)

inductive MessagingCall where
  | isConversationE2EE (conversationId : String)
  | enforceE2EEContentType (conversationId contentType : String)

inductive MessagingReply where
  | status (isE2EE : Bool)
  | checked (result : Except Err Unit)

inductive MessagingAct where
  | tick (ms : ℕ)
  | answer (id : ℕ) (response : E2eeResponse)

namespace MessagingService

abbrev Body (α : Type) := Prog MessagingCmd MessagingCmd.Value α

def issue (c : MessagingCmd) : Body c.Value := .step c .pure

/-- `MESSAGING_SERVICE_URL` without its last slash. -/
def baseUrl (env : MessagingEnv) : List Char :=
  let url := (env.MESSAGING_SERVICE_URL.getD "").toList
  if url.getLast? = some '/' then url.dropLast else url

def e2eeCacheKey (conversationId : String) : String := s!"e2ee:conv:{conversationId}"

theorem e2eeCacheKey_injective {a b : String} (h : e2eeCacheKey a = e2eeCacheKey b) : a = b :=
  (String.append_right_inj _).mp h

/-- What a settled request says; whatever is not a clear answer counts as `false`. -/
def statusOf : E2eeResponse → Bool
  | .rejected _ => false
  | .response status body =>
    if status = 404 then false
    else if !(200 ≤ status && status ≤ 299) then false
    else match body with
      | .ok e2ee_enabled => e2ee_enabled = some true
      | .error _ => false

def fetchE2eeStatus (env : MessagingEnv) (conversationId : String) : Body Bool :=
  if (baseUrl env).isEmpty then pure false
  else do
    let id ← issue (.request conversationId)
    let response ← issue (.response id)
    pure (statusOf response)

def isConversationE2EE (env : MessagingEnv) (conversationId : String) : Body Bool := do
  match ← issue (.getStatus (e2eeCacheKey conversationId)) with
  | some cached => pure cached
  | none => do
    let result ← fetchE2eeStatus env conversationId
    issue (.setStatus (e2eeCacheKey conversationId) result E2EE_STATUS_CACHE_TTL_MS)
    pure result

/-- What a call makes of the status. -/
def finish (x : MessagingCall) (isE2EE : Bool) : MessagingReply :=
  match x with
  | .isConversationE2EE _ => .status isE2EE
  | .enforceE2EEContentType conversationId contentType =>
    .checked (MediaController.enforceE2EEContentType conversationId isE2EE contentType)

end MessagingService

def MessagingCall.conversationId : MessagingCall → String
  | .isConversationE2EE conversationId | .enforceE2EEContentType conversationId _ => conversationId

open MessagingService in
/-- Concurrent calls over Redis and messaging-service. -/
def messaging (env : MessagingEnv) :
    System MessagingCmd MessagingCmd.Value MessagingWorld MessagingCall MessagingAct MessagingReply where
  exec := MessagingCmd.exec
  body x := finish x <$> isConversationE2EE env x.conversationId
  forks _ := []
  act
    | .tick ms, w => { w with now := w.now + ms }
    | .answer id response, w => { w with arrived := Function.update w.arrived id (some response) }

abbrev MessagingPool := Pool MessagingCmd MessagingCmd.Value MessagingWorld MessagingCall MessagingReply

/-- The request was sent about the conversation at time `t`. -/
def MessagingWorld.Sent (w : MessagingWorld) (id : ℕ) (conversationId : String) (t : ℤ) : Prop :=
  w.sent[id]? = some (conversationId, t)

/-- The request that a command waits for. -/
def MessagingCmd.awaited? : MessagingCmd → Option ℕ
  | .response id => some id
  | _ => none

/-- Only requests take time, and none takes longer than the abort timer allows: a request settles
when its answer has arrived, or when its time is over. -/
def InTime (env : MessagingEnv) (p : MessagingPool) : Label MessagingCall MessagingAct → Prop
  | .call _ => True
  | .step i => ∀ id ∈ (p.nextCmd i).bind MessagingCmd.awaited?, (p.world.arrived id).isSome ∨
      ∀ c s, p.world.Sent id c s → s + env.MESSAGING_SERVICE_TIMEOUT_MS ≤ p.world.now
  | .act (.tick ms) => ∀ t ∈ p.threads, t.outcome.isSome ∨ ∃ id k c s,
      t.rest = .step (.response id) k ∧ p.world.Sent id c s ∧
        p.world.now + ms ≤ s + env.MESSAGING_SERVICE_TIMEOUT_MS
  | .act (.answer id _) => id < p.world.sent.length ∧ p.world.arrived id = none

/-- Every request about the conversation that is sent at `T` or later is answered with `true`, and
before its abort. -/
def AnsweredTrue (conversationId : String) (T : ℤ) (p : MessagingPool) :
    Label MessagingCall MessagingAct → Prop
  | .step i => ∀ id ∈ (p.nextCmd i).bind MessagingCmd.awaited?, ∀ s,
      p.world.Sent id conversationId s → T ≤ s → (p.world.arrived id).isSome
  | .act (.answer id response) => ∀ s, p.world.Sent id conversationId s → T ≤ s →
      MessagingService.statusOf response = true
  | _ => True

/-! Where a call stands -/

section Stages
open MessagingService

/-- The result of the request is about to be cached. -/
def storing (x : MessagingCall) (isE2EE : Bool) : Body MessagingReply :=
  .step (.setStatus (e2eeCacheKey x.conversationId) isE2EE E2EE_STATUS_CACHE_TTL_MS) fun _ =>
    .pure (finish x isE2EE)

def waiting (x : MessagingCall) (id : ℕ) : Body MessagingReply :=
  .step (.response id) fun response => storing x (statusOf response)

def requesting (x : MessagingCall) : Body MessagingReply :=
  .step (.request x.conversationId) fun id => waiting x id

def looked (x : MessagingCall) : Option Bool → Body MessagingReply
  | some cached => .pure (finish x cached)
  | none => requesting x

variable {env : MessagingEnv}

theorem messaging_body (hurl : (baseUrl env).isEmpty = false) (x : MessagingCall) :
    (messaging env).body x = .step (.getStatus (e2eeCacheKey x.conversationId)) (looked x) := by
  show finish x <$> isConversationE2EE env x.conversationId = _
  have hfetch : fetchE2eeStatus env x.conversationId = .step (.request x.conversationId) fun id =>
      .step (.response id) fun response => .pure (statusOf response) := by
    unfold fetchE2eeStatus
    rw [hurl]
    rfl
  unfold isConversationE2EE
  simp only [hfetch]
  show Prog.step _ _ = _
  congr 1
  funext cached
  cases cached <;> rfl

/-- The sent requests of later worlds. -/
theorem sent_append {w : MessagingWorld} {id : ℕ} {c : String} {s : ℤ} {more : List (String × ℤ)}
    (h : w.Sent id c s) : (w.sent ++ more)[id]? = some (c, s) := by
  have hlt := (List.getElem?_eq_some_iff.mp h).1
  rw [List.getElem?_append_left hlt]
  exact h

/-- Where a call stands, and what is known there about its request and its result. -/
inductive Stands (env : MessagingEnv) (c : String) (T : ℤ) (w : MessagingWorld) (x : MessagingCall)
    (rest : Body MessagingReply) : Prop
  | start (at_ : rest = (messaging env).body x)
  | requesting (at_ : rest = requesting x)
  | waiting (id : ℕ) (s : ℤ) (at_ : rest = waiting x id) (sent : w.Sent id x.conversationId s)
      (inTime : w.now ≤ s + env.MESSAGING_SERVICE_TIMEOUT_MS)
  | storing (b : Bool) (at_ : rest = storing x b)
      (fresh : x.conversationId = c → T + env.MESSAGING_SERVICE_TIMEOUT_MS < w.now → b = true)
  | done (reply : MessagingReply) (at_ : rest = .pure reply)

/-- Entries that were set after the last old request has ended are true. -/
structure StatusInv (env : MessagingEnv) (c : String) (T : ℤ) (w : MessagingWorld) : Prop where
  entry : ∀ value deadline, w.statuses (e2eeCacheKey c) = some (value, deadline) →
    T + env.MESSAGING_SERVICE_TIMEOUT_MS + E2EE_STATUS_CACHE_TTL_MS < deadline → value = true
  answers : ∀ id response s, w.arrived id = some response → w.Sent id c s → T ≤ s →
    statusOf response = true
  arrived : ∀ id response, w.arrived id = some response → id < w.sent.length

variable {c : String} {T : ℤ} {w : MessagingWorld} {x : MessagingCall} {rest : Body MessagingReply}

/-- No command of another call moves a call or the clock. -/
theorem Stands.other (h : Stands env c T w x rest) (cmd : MessagingCmd) :
    Stands env c T (cmd.exec w).2 x rest := by
  have hnow : (cmd.exec w).2.now = w.now := by cases cmd <;> rfl
  cases h with
  | start h => exact .start h
  | requesting h => exact .requesting h
  | waiting id s h sent inTime =>
    refine .waiting id s h ?_ (hnow ▸ inTime)
    cases cmd with
    | request conversationId => exact sent_append sent
    | _ => exact sent
  | storing b h fresh => exact .storing b h (hnow ▸ fresh)
  | done reply h => exact .done reply h

/-- The commands of a call. -/
theorem stands_step (hurl : (baseUrl env).isEmpty = false) {p : MessagingPool} {i : ℕ}
    {log : List (Event MessagingCmd MessagingCmd.Value)} {cmd : MessagingCmd}
    {k : cmd.Value → Body MessagingReply}
    (hok : InTime env p (.step i) ∧ AnsweredTrue c T p (.step i))
    (hat : p.threads[i]? = some ⟨x, log, .step cmd k⟩) (hw : StatusInv env c T p.world)
    (h : Stands env c T p.world x (.step cmd k)) :
    StatusInv env c T (cmd.exec p.world).2 ∧
      Stands env c T (cmd.exec p.world).2 x (k (cmd.exec p.world).1) := by
  have hnext : p.nextCmd i = some cmd := by simp [Pool.nextCmd, hat]
  cases h with
  | start h =>
    rw [messaging_body hurl] at h
    cases h
    refine ⟨hw, ?_⟩
    show Stands env c T p.world x (looked x _)
    generalize (MessagingCmd.exec _ p.world).1 = cached
    cases cached with
    | none => exact .requesting rfl
    | some b => exact .done _ rfl
  | requesting h =>
    cases h
    refine ⟨⟨hw.entry, fun id response s hr hs hT => ?_, fun id response hr => ?_⟩, ?_⟩
    · -- the new request has no answer yet
      have hlt := hw.arrived id response hr
      refine hw.answers id response s hr ?_ hT
      replace hs : (p.world.sent ++ [(x.conversationId, p.world.now)])[id]? = some (c, s) := hs
      rwa [List.getElem?_append_left hlt] at hs
    · show id < (p.world.sent ++ [(x.conversationId, p.world.now)]).length
      have hlt := hw.arrived id response hr
      simp only [List.length_append, List.length_singleton]
      omega
    · refine .waiting p.world.sent.length p.world.now rfl ?_ ?_
      · show (p.world.sent ++ [(x.conversationId, p.world.now)])[p.world.sent.length]? = _
        simp
      · show p.world.now ≤ p.world.now + _
        omega
  | waiting id s h sent inTime =>
    cases h
    refine ⟨hw, .storing _ rfl fun hc hlate => ?_⟩
    subst hc
    -- the request was sent at `T` or later, so its answer has arrived
    have hlate : T + env.MESSAGING_SERVICE_TIMEOUT_MS < p.world.now := hlate
    have hT : T ≤ s := by omega
    have harrived := hok.2 id (by rw [hnext]; rfl) s sent hT
    obtain ⟨response, hr⟩ := Option.isSome_iff_exists.mp harrived
    have hvalue : (MessagingCmd.exec (.response id) p.world).1 = response := by
      show (p.world.arrived id).getD _ = response
      rw [hr]
      rfl
    rw [hvalue]
    exact hw.answers id response s hr sent hT
  | storing b h fresh =>
    cases h
    refine ⟨⟨fun value deadline he hlate => ?_, hw.answers, hw.arrived⟩, .done _ rfl⟩
    replace he : Function.update p.world.statuses (e2eeCacheKey x.conversationId)
      (some (b, p.world.now + E2EE_STATUS_CACHE_TTL_MS)) (e2eeCacheKey c) = some (value, deadline) := he
    by_cases hc : x.conversationId = c
    · rw [hc, Function.update_self] at he
      obtain ⟨rfl, rfl⟩ := Prod.mk.inj (Option.some.inj he)
      exact fresh hc (by omega)
    · rw [Function.update_of_ne fun h => hc (e2eeCacheKey_injective h).symm] at he
      exact hw.entry value deadline he hlate
  | done reply h => cases h

/-- No time passes in a call but where it waits for its request. -/
theorem stands_tick (hurl : (baseUrl env).isEmpty = false) {ms : ℕ}
    {t : Thread MessagingCmd MessagingCmd.Value MessagingCall MessagingReply}
    (hok : t.outcome.isSome ∨ ∃ id k c s, t.rest = .step (.response id) k ∧ w.Sent id c s ∧
      w.now + ms ≤ s + env.MESSAGING_SERVICE_TIMEOUT_MS)
    (h : Stands env c T w t.call t.rest) :
    Stands env c T { w with now := w.now + ms } t.call t.rest := by
  rcases hok with hdone | ⟨id, k, c', s', hrest, hsent, hle⟩
  · obtain ⟨reply, hreply⟩ := Option.isSome_iff_exists.mp hdone
    exact .done reply (Thread.rest_of_outcome hreply)
  · rw [hrest] at h ⊢
    cases h with
    | start h =>
      rw [messaging_body hurl] at h
      cases h
    | requesting h => cases h
    | waiting id s h sent inTime =>
      refine .waiting id s h sent ?_
      cases h
      -- the request is the one whose deadline bounds the clock
      obtain ⟨-, rfl⟩ := Prod.mk.inj (Option.some.inj (hsent.symm.trans sent))
      exact hle
    | storing b h fresh => cases h
    | done reply h => cases h

theorem messaging_rules (hurl : (baseUrl env).isEmpty = false) :
    LocalRules (messaging env) (fun p l => InTime env p l ∧ AnsweredTrue c T p l)
      (StatusInv env c T) (Stands env c T) where
  start w x := .start rfl
  act p a hok hp := by
    cases a with
    | tick ms =>
      refine ⟨⟨hp.world.entry, hp.world.answers, hp.world.arrived⟩, fun t ht => ?_⟩
      exact stands_tick hurl (hok.1 t ht) (hp.threads t ht)
    | answer id response =>
      obtain ⟨⟨hlt, -⟩, htrue⟩ := hok
      refine ⟨⟨hp.world.entry, fun id' response' s hr hs hT => ?_, fun id' response' hr => ?_⟩,
        fun t ht => ?_⟩
      · replace hr : Function.update p.world.arrived id (some response) id' = some response' := hr
        by_cases hid : id' = id
        · subst hid
          rw [Function.update_self] at hr
          exact Option.some.inj hr ▸ htrue s hs hT
        · rw [Function.update_of_ne hid] at hr
          exact hp.world.answers id' response' s hr hs hT
      · replace hr : Function.update p.world.arrived id (some response) id' = some response' := hr
        by_cases hid : id' = id
        · exact hid ▸ hlt
        · rw [Function.update_of_ne hid] at hr
          exact hp.world.arrived id' response' hr
      · cases hp.threads t ht with
        | start h => exact .start h
        | requesting h => exact .requesting h
        | waiting id s h sent inTime => exact .waiting id s h sent inTime
        | storing b h fresh => exact .storing b h fresh
        | done reply h => exact .done reply h
  step p i x log cmd k hok hat hp := by
    obtain ⟨hw, hown⟩ := stands_step hurl hok hat hp.world
      (hp.threads ⟨x, log, .step cmd k⟩ (List.mem_of_getElem? hat))
    exact ⟨hw, hown, fun y q h => h.other cmd⟩

/-- Where a call for the conversation stands that started late: it only meets true answers. -/
inductive FreshAt (env : MessagingEnv) (T : ℤ) (w : MessagingWorld) (x : MessagingCall)
    (rest : Body MessagingReply) : Prop
  | start (at_ : rest = (messaging env).body x)
  | requesting (at_ : rest = requesting x)
  | waiting (id : ℕ) (s : ℤ) (at_ : rest = waiting x id) (sent : w.Sent id x.conversationId s)
      (late : T ≤ s)
  | storing (at_ : rest = storing x true)
  | done (at_ : rest = .pure (finish x true))

/-- The time is past every entry of an old answer. -/
structure FreshCall (env : MessagingEnv) (c : String) (T : ℤ) (w : MessagingWorld)
    (x : MessagingCall) (rest : Body MessagingReply) : Prop where
  conversation : x.conversationId = c
  late : T + env.MESSAGING_SERVICE_TIMEOUT_MS + E2EE_STATUS_CACHE_TTL_MS < w.now
  stands : FreshAt env T w x rest

theorem FreshAt.other (h : FreshAt env T w x rest) (cmd : MessagingCmd) :
    FreshAt env T (cmd.exec w).2 x rest := by
  cases h with
  | start h => exact .start h
  | requesting h => exact .requesting h
  | waiting id s h sent late =>
    refine .waiting id s h ?_ late
    cases cmd with
    | request conversationId => exact sent_append sent
    | _ => exact sent
  | storing h => exact .storing h
  | done h => exact .done h

theorem freshAt_step (hurl : (baseUrl env).isEmpty = false) {p : MessagingPool} {i : ℕ}
    {log : List (Event MessagingCmd MessagingCmd.Value)} {cmd : MessagingCmd}
    {k : cmd.Value → Body MessagingReply} (hok : AnsweredTrue c T p (.step i))
    (hat : p.threads[i]? = some ⟨x, log, .step cmd k⟩) (hw : StatusInv env c T p.world)
    (h : FreshCall env c T p.world x (.step cmd k)) :
    FreshAt env T (cmd.exec p.world).2 x (k (cmd.exec p.world).1) := by
  have hnext : p.nextCmd i = some cmd := by simp [Pool.nextCmd, hat]
  obtain ⟨rfl, hlate, h⟩ := h
  cases h with
  | start h =>
    rw [messaging_body hurl] at h
    cases h
    show FreshAt env T p.world x (looked x _)
    cases hcached : (MessagingCmd.exec (.getStatus (e2eeCacheKey x.conversationId)) p.world).1 with
    | none => exact .requesting rfl
    | some b =>
      -- an entry that is still there has been set late
      obtain ⟨⟨value, deadline⟩, hentry, rfl⟩ := Option.map_eq_some_iff.mp hcached
      obtain ⟨hget, hlive⟩ := Option.filter_eq_some_iff.mp hentry
      have hlive : p.world.now < deadline := by simpa using hlive
      obtain rfl := hw.entry value deadline hget (by omega)
      exact .done rfl
  | requesting h =>
    cases h
    refine .waiting p.world.sent.length p.world.now rfl ?_ (by omega)
    show (p.world.sent ++ [(x.conversationId, p.world.now)])[p.world.sent.length]? = _
    simp
  | waiting id s h sent late =>
    cases h
    have harrived := hok id (by rw [hnext]; rfl) s sent late
    obtain ⟨response, hr⟩ := Option.isSome_iff_exists.mp harrived
    have hvalue : (MessagingCmd.exec (.response id) p.world).1 = response := by
      show (p.world.arrived id).getD _ = response
      rw [hr]
      rfl
    rw [hvalue]
    refine .storing ?_
    show storing x (statusOf response) = storing x true
    rw [hw.answers id response s hr sent late]
  | storing h =>
    cases h
    exact .done rfl
  | done h => cases h

theorem messaging_watch (hurl : (baseUrl env).isEmpty = false) :
    WatchRules (messaging env) (fun p l => InTime env p l ∧ AnsweredTrue c T p l)
      (StatusInv env c T) (Stands env c T) (FreshCall env c T) where
  act p a _ _ t _ h := by
    obtain ⟨hc, hlate, hfresh⟩ := h
    cases a with
    | tick ms =>
      refine ⟨hc, ?_, ?_⟩
      · show _ < p.world.now + ms
        omega
      · cases hfresh with
        | start h => exact .start h
        | requesting h => exact .requesting h
        | waiting id s h sent late => exact .waiting id s h sent late
        | storing h => exact .storing h
        | done h => exact .done h
    | answer id response =>
      refine ⟨hc, hlate, ?_⟩
      cases hfresh with
      | start h => exact .start h
      | requesting h => exact .requesting h
      | waiting id s h sent late => exact .waiting id s h sent late
      | storing h => exact .storing h
      | done h => exact .done h
  step p i x log cmd k hok hat hp h := by
    have hnow : (cmd.exec p.world).2.now = p.world.now := by cases cmd <;> rfl
    exact ⟨h.conversation, hnow ▸ h.late, freshAt_step hurl hok.2 hat hp.world h⟩
  others p cmd _ y q h := by
    have hnow : (cmd.exec p.world).2.now = p.world.now := by cases cmd <;> rfl
    exact ⟨h.conversation, hnow ▸ h.late, h.stands.other cmd⟩

end Stages

/-- What a reply says that takes the conversation for E2EE. -/
def MessagingReply.SaysE2EE (x : MessagingCall) (reply : MessagingReply) : Prop :=
  match x with
  | .isConversationE2EE _ => reply = .status true
  | .enforceE2EEContentType _ contentType => contentType ≠ E2EE_REQUIRED_CONTENT_TYPE →
      ∃ message, reply = .checked (.error (.unprocessableEntity message))

theorem finish_true (x : MessagingCall) : (MessagingService.finish x true).SaysE2EE x := by
  cases x with
  | isConversationE2EE conversationId => rfl
  | enforceE2EEContentType conversationId contentType =>
    intro hne
    refine ⟨_, congrArg MessagingReply.checked (if_pos ?_)⟩
    simpa using hne

/-- If every request about the conversation that is sent at `T` or later is answered with `true` in
time, a call that starts more than the timeout and 60 seconds after `T` takes the conversation for
E2EE, whatever was answered and cached before. -/
theorem e2ee_status_fresh (env : MessagingEnv)
    (hurl : (MessagingService.baseUrl env).isEmpty = false) (now T : ℤ) (p₀ p₁ p : MessagingPool)
    (x : MessagingCall)
    (h₀ : (messaging env).Runs (fun p l => InTime env p l ∧ AnsweredTrue x.conversationId T p l)
      ⟨.start now, []⟩ p₀)
    (hlate : T + env.MESSAGING_SERVICE_TIMEOUT_MS + E2EE_STATUS_CACHE_TTL_MS < p₀.world.now)
    (hcall : (messaging env).next p₀ (.call x) = some p₁)
    (h : (messaging env).Runs (fun p l => InTime env p l ∧ AnsweredTrue x.conversationId T p l) p₁ p)
    (reply : MessagingReply)
    (hreply : p.threads[p₀.threads.length]?.bind Thread.outcome = some reply) : reply.SaysE2EE x := by
  have hrules := @messaging_rules env x.conversationId T hurl
  have hstart : StatusInv env x.conversationId T (.start now) := by
    refine ⟨fun _ _ he => ?_, fun _ _ _ hr => ?_, fun _ _ hr => ?_⟩
    · exact absurd he (by simp [MessagingWorld.start])
    · exact absurd hr (by simp [MessagingWorld.start])
    · exact absurd hr (by simp [MessagingWorld.start])
  have hp₀ := hrules.runs (LocalRules.local_empty hstart) h₀
  have hok : InTime env p₀ (.call x) ∧ AnsweredTrue x.conversationId T p₀ (.call x) :=
    ⟨trivial, trivial⟩
  have hp₁ := hrules.next hp₀ hok hcall
  obtain rfl := Option.some.inj hcall
  have hat : (p₀.threads ++ [(messaging env).start x])[p₀.threads.length]? =
      some ((messaging env).start x) := by simp
  obtain ⟨t, ht, htcall, hfresh⟩ := (messaging_watch hurl).runs hrules hp₁ h hat
    ⟨rfl, hlate, .start rfl⟩
  rw [ht, Option.bind_some] at hreply
  have hrest := Thread.rest_of_outcome hreply
  have htcall : t.call = x := htcall
  rw [hrest, htcall] at hfresh
  -- a call that has returned has returned `true`
  cases hfresh.stands with
  | start h =>
    rw [messaging_body hurl] at h
    cases h
  | requesting h => cases h
  | waiting id s h sent late => cases h
  | storing h => cases h
  | done h =>
    obtain rfl := Prog.pure.inj h
    exact finish_true x

/-- A service in front of messaging-service, with the timeout of the deployment. -/
def messagingEnv : MessagingEnv := ⟨some "http://messaging-service:3000", 3000⟩

/-- A command that waits for no request may always be issued. -/
theorem inTime_of_awaits_none {env : MessagingEnv} {c : String} {T : ℤ} {p : MessagingPool} {i : ℕ}
    (h : (p.nextCmd i).bind MessagingCmd.awaited? = none) :
    InTime env p (.step i) ∧ AnsweredTrue c T p (.step i) := by
  refine ⟨fun id hid => ?_, fun id hid => ?_⟩ <;> · rw [h] at hid; cases hid

/-- A request that was sent at 0 is answered with `false` after three seconds, and 60 seconds later the
status is asked for again. With `T` one millisecond after the first request, that is just late enough. -/
theorem e2ee_status_fresh_enforced :
    (MessagingReply.checked (MediaController.enforceE2EEContentType "c" true "image/png")).SaysE2EE
      (.enforceE2EEContentType "c" "image/png") := by
  have hread {p : MessagingPool} {i id : ℕ} {r : E2eeResponse} (h : p.world.arrived id = some r)
      (hwait : (p.nextCmd i).bind MessagingCmd.awaited? = some id) :
      InTime messagingEnv p (.step i) ∧ AnsweredTrue "c" 1 p (.step i) := by
    refine ⟨fun id' hid => Or.inl ?_, fun id' hid _ _ _ => ?_⟩ <;>
      · rw [hwait] at hid
        obtain rfl := Option.some.inj hid
        rw [h]
        rfl
  have h₁ : (messaging messagingEnv).Runs (fun p l => InTime messagingEnv p l ∧ AnsweredTrue "c" 1 p l)
      ⟨.start 0, []⟩ _ := .tail (l := .call (.isConversationE2EE "c")) (.refl _) ⟨trivial, trivial⟩ rfl
  -- look up, send the request, wait for the answer, read it, store it
  have h₂ := System.Runs.tail (l := .step 0) h₁ (inTime_of_awaits_none rfl) rfl
  have h₃ := System.Runs.tail (l := .step 0) h₂ (inTime_of_awaits_none rfl) rfl
  have h₄ := System.Runs.tail (l := .act (.tick 3000)) h₃ (by
    refine ⟨fun t ht => Or.inr ?_, trivial⟩
    obtain rfl := List.mem_singleton.mp ht
    exact ⟨0, _, "c", 0, rfl, rfl, by decide⟩) rfl
  have h₅ := System.Runs.tail (l := .act (.answer 0 (.response 200 (.ok (some false))))) h₄ (by
    refine ⟨⟨by decide, rfl⟩, fun s hs hle => ?_⟩
    obtain rfl : (0 : ℤ) = s := (Prod.mk.inj (Option.some.inj hs)).2
    exact absurd hle (by decide)) rfl
  have h₆ := System.Runs.tail (l := .step 0) h₅ (hread rfl rfl) rfl
  have h₇ := System.Runs.tail (l := .step 0) h₆ (inTime_of_awaits_none rfl) rfl
  have h₈ := System.Runs.tail (l := .act (.tick 60002)) h₇ (by
    refine ⟨fun t ht => Or.inl ?_, trivial⟩
    obtain rfl := List.mem_singleton.mp ht
    rfl) rfl
  refine e2ee_status_fresh messagingEnv (by decide) 0 1 _ _ _ (.enforceE2EEContentType "c" "image/png")
    h₈ (by decide) rfl
    (.tail (l := .step 1)
      (.tail (l := .step 1)
        (.tail (l := .act (.answer 1 (.response 200 (.ok (some true)))))
          (.tail (l := .step 1)
            (.tail (l := .step 1) (.refl _) (inTime_of_awaits_none rfl) rfl)
            (inTime_of_awaits_none rfl) rfl)
          ⟨⟨by decide, rfl⟩, fun _ _ _ => rfl⟩ rfl)
        (hread rfl rfl) rfl)
      (inTime_of_awaits_none rfl) rfl) _ rfl

end WhisprMedia
