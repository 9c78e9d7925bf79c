import WhisprMedia.MediaService
import WhisprMedia.ServiceRules

/-! The lifecycle rules of the bucket: what `ensureLifecyclePolicies` installs at startup, and the
objects that an installed rule lets the bucket purge. -/
namespace WhisprMedia
open Awaiting StorageService

/-- A rule of the bucket: `Filter.Prefix` and `Expiration.Days` may be missing. -/
structure LifecycleRule where
  ID : Option String
  Enabled : Bool
  Prefix : Option String
  Days : Option Int
  deriving DecidableEq

namespace LifecycleService

def desiredRuleIds : List String := ["messages-expiry", "thumbnails-expiry"]

/-- `existingRules.find((r) => r.ID === id)?.Expiration?.Days`. -/
def daysOf (existingRules : List LifecycleRule) (id : String) : Option Int :=
  (existingRules.find? fun r => r.ID = some id).bind LifecycleRule.Days

def rulesUpToDate (existingRules : List LifecycleRule)
    (messageBlobTtlDays thumbnailBlobTtlDays : Int) : Bool :=
  (desiredRuleIds.all fun id => (existingRules.map fun r => r.ID.getD "").contains id) &&
    daysOf existingRules "messages-expiry" = some messageBlobTtlDays &&
    daysOf existingRules "thumbnails-expiry" = some thumbnailBlobTtlDays

def expiryRule (id keyPrefix : String) (days : Int) : LifecycleRule :=
  ⟨some id, true, some keyPrefix, some days⟩

/-- The rules of the bucket after startup: foreign rules stay, the two of the service are replaced
unless both are there with their days. -/
def ensureLifecyclePolicies (existingRules : List LifecycleRule)
    (messageBlobTtlDays thumbnailBlobTtlDays : Int) : List LifecycleRule :=
  if rulesUpToDate existingRules messageBlobTtlDays thumbnailBlobTtlDays then existingRules
  else (existingRules.filter fun r => !desiredRuleIds.contains (r.ID.getD "")) ++
    [expiryRule "messages-expiry" "messages/" messageBlobTtlDays,
      expiryRule "thumbnails-expiry" "thumbnails/" thumbnailBlobTtlDays]

end LifecycleService

/-- An object that falls under the rule and is `Days` old. -/
def LifecycleRule.expires (rule : LifecycleRule) (w : World) (key : String) : Bool :=
  rule.Enabled && ((rule.Prefix.getD "").toList.isPrefixOf key.toList) &&
    (w.bucket key).isSome && rule.Days.any fun days =>
      w.lastModified key + days * 24 * 60 * 60 * 1000 ≤ w.now

/-- The key falls under the rule. -/
def LifecycleRule.Covers (rule : LifecycleRule) (key : String) : Prop :=
  rule.Enabled = true ∧ (rule.Prefix.getD "").toList <+: key.toList

/-- The object is younger than the days of every rule that it falls under. -/
def Young (rules : List LifecycleRule) (w : World) (key : String) : Prop :=
  ∀ rule ∈ rules, rule.Covers key → ∀ days, rule.Days = some days →
    w.now - w.lastModified key < days * 24 * 60 * 60 * 1000

section Ages
variable {rules : List LifecycleRule} {rule : LifecycleRule} {w : World} {key : String}

/-- What a rule lets expire is there, and not young. -/
theorem old_of_expires (hrule : rule ∈ rules) (h : rule.expires w key = true) :
    (w.bucket key).isSome = true ∧ ¬ Young rules w key := by
  simp only [LifecycleRule.expires, Bool.and_eq_true, Option.any_eq_true,
    List.isPrefixOf_iff_prefix, decide_eq_true_eq] at h
  obtain ⟨⟨⟨henabled, hprefix⟩, hthere⟩, days, hdays, hold⟩ := h
  refine ⟨hthere, fun hyoung => ?_⟩
  have hage := hyoung rule hrule ⟨henabled, hprefix⟩ days hdays
  omega

variable {m t : Int}

/-- Of a bucket without rules, only messages and thumbnails fall under one. -/
theorem under_of_covers (hrule : rule ∈ LifecycleService.ensureLifecyclePolicies [] m t)
    (h : rule.Covers key) :
    rule.Days = some m ∧ Under .messages key ∨ rule.Days = some t ∧ Under .thumbnails key := by
  have hinstalled : LifecycleService.ensureLifecyclePolicies [] m t =
      [LifecycleService.expiryRule "messages-expiry" "messages/" m,
        LifecycleService.expiryRule "thumbnails-expiry" "thumbnails/" t] := rfl
  rw [hinstalled] at hrule
  rcases List.mem_cons.mp hrule with rfl | hrule
  · exact Or.inl ⟨rfl, h.2⟩
  · obtain rfl := List.mem_singleton.mp hrule
    exact Or.inr ⟨rfl, h.2⟩

/-- Avatars and group icons stay young. -/
theorem young_public (h : Under .avatars key ∨ Under .group_icons key) :
    Young (LifecycleService.ensureLifecyclePolicies [] m t) w key := by
  intro rule hrule hcovers
  rcases under_of_covers hrule hcovers with ⟨-, hm⟩ | ⟨-, hm⟩ <;> rcases h with hk | hk <;>
    exact absurd (under_unique hm hk) (by decide)

/-- Whatever is there is young as long as the rules' days have not passed since the start. -/
theorem young_before (hkey : 0 ≤ w.lastModified key) (hm : w.now < m * 24 * 60 * 60 * 1000)
    (ht : w.now < t * 24 * 60 * 60 * 1000) :
    Young (LifecycleService.ensureLifecyclePolicies [] m t) w key := by
  intro rule hrule hcovers days hdays
  rcases under_of_covers hrule hcovers with ⟨h, -⟩ | ⟨h, -⟩ <;>
    obtain rfl := Option.some.inj (h.symm.trans hdays) <;> omega

end Ages

/-! The service beside a bucket with rules -/

inductive LifecycleAct where
  | act (a : Act)
  | purge (key : String)
  deriving DecidableEq

def LifecycleAct.apply (a : LifecycleAct) (w : World) : World :=
  match a with
  | .act a => a.apply w
  | .purge key => { w with bucket := Function.update w.bucket key none }

def lifecycleService (env : Env) :
    System Cmd Cmd.Reply World Call LifecycleAct (Except Err Reply) :=
  (service env).withActs LifecycleAct.apply

/-- The bucket purges only what a rule lets expire. -/
def PurgesExpired (rules : List LifecycleRule) (p : ServicePool) :
    Label Call LifecycleAct → Prop
  | .act (.purge key) => rules.any fun rule => rule.expires p.world key
  | _ => True

instance (rules : List LifecycleRule) (p : ServicePool) (l : Label Call LifecycleAct) :
    Decidable (PurgesExpired rules p l) := by
  unfold PurgesExpired
  split <;> infer_instance

end WhisprMedia
