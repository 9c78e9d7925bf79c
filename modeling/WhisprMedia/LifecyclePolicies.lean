import WhisprMedia.LifecycleRules
import WhisprMedia.LoggedRuns

/-! The startup of `LifecycleService` as requests to S3, and what a startup that succeeds leaves
in the bucket: by the PUT of the merged rules, or by skipping it. -/
namespace WhisprMedia
open Awaiting LifecycleService

/-! Requests -/

inductive LifecycleCmd where
  | getBucketLifecycleConfiguration
  | putBucketLifecycleConfiguration (rules : List LifecycleRule)
  deriving DecidableEq

def LifecycleCmd.isPut : LifecycleCmd → Bool
  | .getBucketLifecycleConfiguration => false
  | .putBucketLifecycleConfiguration _ => true

structure S3Error where
  name : String
  message : String
  deriving DecidableEq

/-- A GET answers `response.Rules`. -/
abbrev LifecycleCmd.Value : LifecycleCmd → Type
  | .getBucketLifecycleConfiguration => Option (List LifecycleRule)
  | .putBucketLifecycleConfiguration _ => Unit

abbrev LifecycleCmd.Reply (c : LifecycleCmd) : Type := Except S3Error c.Value

/-- The lifecycle configuration of the bucket, if it has one. -/
abbrev BucketRules := Option (List LifecycleRule)

def noSuchConfiguration : String := "NoSuchLifecycleConfiguration"

/-- S3 on a request that does not fail by itself. -/
def serveLifecycle (c : LifecycleCmd) (bucket : BucketRules) : c.Reply × BucketRules :=
  match c with
  | .getBucketLifecycleConfiguration =>
    match bucket with
    | some rules => (.ok (some rules), bucket)
    | none => (.error ⟨noSuchConfiguration, "The lifecycle configuration does not exist"⟩, bucket)
  | .putBucketLifecycleConfiguration rules => (.ok (), some rules)

/-- A failure of S3; the name of the missing configuration is not given to another failure. -/
structure S3Fault where
  error : S3Error
  applied : Bool
  name_ne : error.name ≠ noSuchConfiguration

def execLifecycle (fault : LifecycleCmd → Option S3Fault) (c : LifecycleCmd)
    (bucket : BucketRules) : c.Reply × BucketRules :=
  match fault c with
  | none => serveLifecycle c bucket
  | some f => (.error f.error, if f.applied then (serveLifecycle c bucket).2 else bucket)

namespace LifecycleStartup

def send (c : LifecycleCmd) : ProgE LifecycleCmd LifecycleCmd.Reply S3Error c.Value :=
  ProgE.issue c id

/-- The rules of others, and then the two of the service. -/
def newRules (existingRules : List LifecycleRule) (messageBlobTtlDays thumbnailBlobTtlDays : Int) :
    List LifecycleRule :=
  (existingRules.filter fun r => !desiredRuleIds.contains (r.ID.getD "")) ++
    [expiryRule "messages-expiry" "messages/" messageBlobTtlDays,
      expiryRule "thumbnails-expiry" "thumbnails/" thumbnailBlobTtlDays]

/-- The rules that exist, none when there is no configuration. -/
def fetchRules : ProgE LifecycleCmd LifecycleCmd.Reply S3Error (List LifecycleRule) :=
  tryCatch (do
    let rules ← send .getBucketLifecycleConfiguration
    pure (rules.getD []))
  fun error => if error.name ≠ noSuchConfiguration then throw error else pure []

def ensureLifecyclePolicies (messageBlobTtlDays thumbnailBlobTtlDays : Int) :
    ProgE LifecycleCmd LifecycleCmd.Reply S3Error Unit := do
  let existingRules ← fetchRules
  if rulesUpToDate existingRules messageBlobTtlDays thumbnailBlobTtlDays then pure ()
  else
    send (.putBucketLifecycleConfiguration
      (newRules existingRules messageBlobTtlDays thumbnailBlobTtlDays))

/-- The startup with configured days, from what is in the bucket. -/
def start (fault : LifecycleCmd → Option S3Fault) (messageBlobTtlDays thumbnailBlobTtlDays : Int)
    (bucket : BucketRules) :
    Prog.Done LifecycleCmd LifecycleCmd.Reply BucketRules (Except S3Error Unit) :=
  Prog.run (execLifecycle fault)
    (ensureLifecyclePolicies messageBlobTtlDays thumbnailBlobTtlDays).run bucket

end LifecycleStartup

open LifecycleStartup

/-! What the bucket holds -/

/-- What the policies are to be after a startup: foreign rules as they were, and one enabled
rule of each kind with the days configured. -/
structure PoliciesInstalled (existingRules : List LifecycleRule) (m t : Int)
    (rules : List LifecycleRule) : Prop where
  foreign : (rules.filter fun r => !desiredRuleIds.contains (r.ID.getD "")) =
    existingRules.filter fun r => !desiredRuleIds.contains (r.ID.getD "")
  messages : rules.count (expiryRule "messages-expiry" "messages/" m) = 1
  thumbnails : rules.count (expiryRule "thumbnails-expiry" "thumbnails/" t) = 1

/-- Where the PUT is skipped, the two rules are what the PUT would have installed. -/
def SkipsOnlyInstalled (existingRules : List LifecycleRule) (m t : Int) : Prop :=
  rulesUpToDate existingRules m t = true →
    expiryRule "messages-expiry" "messages/" m ∈ existingRules ∧
      expiryRule "thumbnails-expiry" "thumbnails/" t ∈ existingRules

/-- No startup on this bucket sends a PUT. -/
def IssuesNoPut (m t : Int) (bucket : BucketRules) : Prop :=
  ∀ fault, ∀ e ∈ (start fault m t bucket).log, e.1.isPut = false

/-! Rules and their ids -/

section Rules
variable {existingRules rules : List LifecycleRule} {m t days : ℤ} {id keyPrefix : String}

/-- The pure choice of the rules is what a startup writes or leaves. -/
theorem ensure_eq (existingRules : List LifecycleRule) (m t : ℤ) :
    LifecycleService.ensureLifecyclePolicies existingRules m t =
      if rulesUpToDate existingRules m t then existingRules
      else newRules existingRules m t := rfl

theorem expiryRule_not_foreign (hid : id ∈ desiredRuleIds) :
    (!desiredRuleIds.contains ((expiryRule id keyPrefix days).ID.getD "")) = false := by
  simpa [expiryRule] using hid

/-- A rule of the service is not among the rules of others. -/
theorem expiryRule_not_mem_foreign (hid : id ∈ desiredRuleIds) : expiryRule id keyPrefix days ∉
    existingRules.filter fun r => !desiredRuleIds.contains (r.ID.getD "") := by
  intro h
  have hforeign := (List.mem_filter.mp h).2
  rw [expiryRule_not_foreign hid] at hforeign
  exact absurd hforeign (by simp)

theorem policiesInstalled_newRules (existingRules : List LifecycleRule) (m t : ℤ) :
    PoliciesInstalled existingRules m t (newRules existingRules m t) := by
  have hm : "messages-expiry" ∈ desiredRuleIds := by decide
  have ht : "thumbnails-expiry" ∈ desiredRuleIds := by decide
  have hne : expiryRule "messages-expiry" "messages/" m ≠
      expiryRule "thumbnails-expiry" "thumbnails/" t := by
    simp [expiryRule]
  refine ⟨?_, ?_, ?_⟩
  · unfold newRules
    rw [List.filter_append, List.filter_filter]
    simp only [Bool.and_self, List.filter_cons, expiryRule_not_foreign hm,
      expiryRule_not_foreign ht, Bool.false_eq_true, ↓reduceIte, List.filter_nil, List.append_nil]
  · unfold newRules
    rw [List.count_append, List.count_eq_zero_of_not_mem (expiryRule_not_mem_foreign hm)]
    rw [List.count_cons_self, List.count_cons_of_ne hne.symm, List.count_nil]
  · unfold newRules
    rw [List.count_append, List.count_eq_zero_of_not_mem (expiryRule_not_mem_foreign ht)]
    rw [List.count_cons_of_ne hne, List.count_cons_self, List.count_nil]

/-- The first rule with an id of the service is the one behind the rules of others. -/
theorem daysOf_append_foreign (hid : id ∈ desiredRuleIds) :
    daysOf ((existingRules.filter fun r => !desiredRuleIds.contains (r.ID.getD "")) ++ rules) id =
      daysOf rules id := by
  have hnone : (existingRules.filter fun r => !desiredRuleIds.contains (r.ID.getD "")).find?
      (fun r => r.ID = some id) = none := by
    rw [List.find?_eq_none]
    intro r hr hrid
    have hforeign := (List.mem_filter.mp hr).2
    have hid' : r.ID = some id := by simpa using hrid
    rw [hid', Option.getD_some] at hforeign
    simp only [Bool.not_eq_eq_eq_not, Bool.not_true, List.contains_eq_mem,
      decide_eq_false_iff_not] at hforeign
    exact hforeign hid
  unfold daysOf
  rw [List.find?_append, hnone, Option.none_or]

/-- What the PUT has installed is up to date. -/
theorem rulesUpToDate_newRules (existingRules : List LifecycleRule) (m t : ℤ) :
    rulesUpToDate (newRules existingRules m t) m t = true := by
  have hids : (desiredRuleIds.all fun id =>
      ((newRules existingRules m t).map fun r => r.ID.getD "").contains id) = true := by
    simp [newRules, desiredRuleIds, expiryRule]
  have hm : daysOf (newRules existingRules m t) "messages-expiry" = some m := by
    unfold newRules
    rw [daysOf_append_foreign (by decide)]
    rfl
  have ht : daysOf (newRules existingRules m t) "thumbnails-expiry" = some t := by
    unfold newRules
    rw [daysOf_append_foreign (by decide)]
    rfl
  unfold rulesUpToDate
  rw [hids, hm, ht]
  simp

/-- Ids are unique, so a rule that has one occurs once at most. -/
theorem count_expiryRule_le (hids : (rules.filterMap LifecycleRule.ID).Nodup) :
    rules.count (expiryRule id keyPrefix days) ≤ 1 := by
  have hle : rules.count (expiryRule id keyPrefix days) ≤
      (rules.filterMap LifecycleRule.ID).count id := by
    induction rules with
    | nil => simp
    | cons r rules ih =>
      by_cases hr : r = expiryRule id keyPrefix days
      · have hrid : r.ID = some id := by rw [hr]; rfl
        rw [List.filterMap_cons_some hrid] at hids ⊢
        have := ih (List.nodup_cons.mp hids).2
        rw [hr, List.count_cons_self, List.count_cons_self]
        omega
      · rw [List.count_cons_of_ne hr]
        cases hrid : r.ID with
        | none =>
          rw [List.filterMap_cons_none hrid] at hids ⊢
          exact ih hids
        | some i =>
          rw [List.filterMap_cons_some hrid] at hids ⊢
          exact le_trans (ih (List.nodup_cons.mp hids).2) (List.count_le_count_cons)
  exact le_trans hle (List.nodup_iff_count_le_one.mp hids id)

theorem count_expiryRule_eq_one (hids : (rules.filterMap LifecycleRule.ID).Nodup) :
    rules.count (expiryRule id keyPrefix days) = 1 ↔ expiryRule id keyPrefix days ∈ rules := by
  have hle : rules.count (expiryRule id keyPrefix days) ≤ 1 := count_expiryRule_le hids
  rw [← List.count_pos_iff]
  omega

end Rules

/-! Runs -/

section Start
variable {bucket : BucketRules} {m t : ℤ} {fault : LifecycleCmd → Option S3Fault}

/-- A GET that is served lists the rules that are there, and it changes nothing. -/
theorem fetchRules_logs (fault : LifecycleCmd → Option S3Fault) (bucket : BucketRules) :
    ProgE.Logs (execLifecycle fault) fetchRules bucket
      (fun rules l b => rules = bucket.getD [] ∧ b = bucket ∧ ∀ e ∈ l, e.1.isPut = false)
      fun _ l _ => ∀ e ∈ l, e.1.isPut = false := by
  have hlog : ∀ r : LifecycleCmd.getBucketLifecycleConfiguration.Reply,
      ∀ e ∈ [(⟨_, r⟩ : Event LifecycleCmd LifecycleCmd.Reply)], e.1.isPut = false := by
    intro r e he
    rw [List.mem_singleton.mp he]
    rfl
  refine ProgE.Logs.tryCatch
    (E := fun e l b => (∀ e' ∈ l, e'.1.isPut = false) ∧
      (e.name = noSuchConfiguration → bucket = none ∧ b = bucket)) ?_ ?_
  · refine ProgE.Logs.map (ProgE.logs_issue
      (Q := fun rules l b => rules.getD [] = bucket.getD [] ∧ b = bucket ∧
        ∀ e ∈ l, e.1.isPut = false) ?_ ?_) fun _ _ _ h => h
    · -- the GET has listed rules
      intro rules hr
      cases hf : fault .getBucketLifecycleConfiguration with
      | some f =>
        rw [execLifecycle, hf] at hr
        exact absurd hr (by simp)
      | none =>
        rw [execLifecycle, hf] at hr ⊢
        refine ⟨?_, ?_, hlog _⟩
        · cases bucket with
          | none => exact absurd hr (by simp [serveLifecycle])
          | some existing => exact congrArg (Option.getD · []) (Except.ok.inj hr).symm
        · cases bucket <;> rfl
    · -- the GET has failed: only a bucket without rules fails by that name
      intro e he
      refine ⟨hlog _, fun hname => ?_⟩
      cases hf : fault .getBucketLifecycleConfiguration with
      | some f =>
        rw [execLifecycle, hf] at he
        exact absurd hname (Except.error.inj he ▸ f.name_ne)
      | none =>
        rw [execLifecycle, hf] at he ⊢
        cases bucket with
        | none => exact ⟨rfl, rfl⟩
        | some existing => exact absurd he (by simp [serveLifecycle])
  · -- the handler turns that failure into no rules, and throws the others
    intro e l b he
    by_cases hname : e.name = noSuchConfiguration
    · rw [if_neg (not_not.mpr hname)]
      obtain ⟨hb, hb'⟩ := he.2 hname
      refine ProgE.logs_pure ⟨by rw [hb]; rfl, hb', ?_⟩
      rw [List.append_nil]
      exact he.1
    · rw [if_pos hname]
      refine ProgE.logs_throw ?_
      rw [List.append_nil]
      exact he.1

/-- A startup that returns has found its rules or put them; it puts nothing where the rules that
it finds are up to date. -/
theorem start_logs (fault : LifecycleCmd → Option S3Fault) (m t : ℤ) (bucket : BucketRules) :
    ProgE.Logs (execLifecycle fault) (LifecycleStartup.ensureLifecyclePolicies m t) bucket
      (fun _ l b => (b.getD [] = LifecycleService.ensureLifecyclePolicies (bucket.getD []) m t) ∧
        (rulesUpToDate (bucket.getD []) m t = true → ∀ e ∈ l, e.1.isPut = false))
      fun _ l _ => rulesUpToDate (bucket.getD []) m t = true → ∀ e ∈ l, e.1.isPut = false := by
  unfold LifecycleStartup.ensureLifecyclePolicies
  refine ProgE.Logs.bind (fetchRules_logs fault bucket) ?_ fun _ l _ hl _ => hl
  intro rules l b hl
  obtain ⟨hrules, hb, hlog⟩ := hl
  rw [hrules, hb, ensure_eq]
  by_cases hup : rulesUpToDate (bucket.getD []) m t = true
  · rw [if_pos hup, if_pos hup]
    refine ProgE.logs_pure ⟨rfl, fun _ => ?_⟩
    rw [List.append_nil]
    exact hlog
  · rw [if_neg hup, if_neg hup]
    refine ProgE.logs_issue (fun _ hr => ⟨?_, fun h => absurd h hup⟩) fun _ _ h => absurd h hup
    -- the PUT was answered, so it has replaced the configuration
    cases hf : fault (.putBucketLifecycleConfiguration (newRules (bucket.getD []) m t)) with
    | some f =>
      rw [execLifecycle, hf] at hr
      exact absurd hr (by simp)
    | none =>
      rw [execLifecycle, hf]
      rfl

/-- Where the rules are up to date, a startup sends no PUT, whatever fails. -/
theorem issuesNoPut_of_upToDate (h : rulesUpToDate (bucket.getD []) m t = true) :
    IssuesNoPut m t bucket := by
  intro fault e he
  have hlogs := (start_logs fault m t bucket).logs
  split at hlogs
  · exact hlogs.2 h e he
  · exact hlogs h e he

/-- After a startup that succeeded, a second one sends no PUT. -/
theorem issuesNoPut_second (hok : (start fault m t bucket).result = .ok ()) :
    IssuesNoPut m t (start fault m t bucket).world := by
  have hlogs := ((start_logs fault m t bucket).of_run hok).1
  refine issuesNoPut_of_upToDate ?_
  rw [start, hlogs, ensure_eq]
  by_cases hup : rulesUpToDate (bucket.getD []) m t = true
  · rw [if_pos hup]
    exact hup
  · rw [if_neg hup]
    exact rulesUpToDate_newRules _ m t

/-- A startup that succeeds establishes the two policies, keeps the rules of others and leaves
nothing to a second one, exactly where a skipped PUT would have changed nothing. -/
theorem lifecycle_established_iff (bucket : BucketRules) (m t : ℤ)
    (fault : LifecycleCmd → Option S3Fault)
    (hids : ((bucket.getD []).filterMap LifecycleRule.ID).Nodup)
    (hok : (start fault m t bucket).result = .ok ()) :
    (PoliciesInstalled (bucket.getD []) m t ((start fault m t bucket).world.getD []) ∧
        IssuesNoPut m t (start fault m t bucket).world) ↔
      SkipsOnlyInstalled (bucket.getD []) m t := by
  have hrules : (start fault m t bucket).world.getD [] =
      LifecycleService.ensureLifecyclePolicies (bucket.getD []) m t :=
    ((start_logs fault m t bucket).of_run hok).1
  rw [hrules, ensure_eq, and_iff_left (issuesNoPut_second hok)]
  by_cases hup : rulesUpToDate (bucket.getD []) m t = true
  · rw [if_pos hup]
    constructor
    · intro h _
      exact ⟨(count_expiryRule_eq_one hids).mp h.messages,
        (count_expiryRule_eq_one hids).mp h.thumbnails⟩
    · intro h
      obtain ⟨hm, ht⟩ := h hup
      exact ⟨rfl, (count_expiryRule_eq_one hids).mpr hm, (count_expiryRule_eq_one hids).mpr ht⟩
  · rw [if_neg hup]
    exact ⟨fun _ h => absurd h hup, fun _ => policiesInstalled_newRules _ m t⟩

/-- A rule of somebody else among the two of the service. -/
def sharedRules : List LifecycleRule :=
  [expiryRule "messages-expiry" "messages/" 30, expiryRule "backups" "backups/" 7,
    expiryRule "thumbnails-expiry" "thumbnails/" 14]

/-- A start with the same days skips its PUT, and one with other days keeps the rule that is not its
own. -/
theorem lifecycle_established_shared :
    ((start (fun _ => none) 30 14 (some sharedRules)).world = some sharedRules ∧
      PoliciesInstalled sharedRules 30 14
        ((start (fun _ => none) 30 14 (some sharedRules)).world.getD []) ∧
      IssuesNoPut 30 14 (start (fun _ => none) 30 14 (some sharedRules)).world) ∧
    (start (fun _ => none) 60 14 (some sharedRules)).world ≠ some sharedRules ∧
      PoliciesInstalled sharedRules 60 14
        ((start (fun _ => none) 60 14 (some sharedRules)).world.getD []) ∧
      IssuesNoPut 60 14 (start (fun _ => none) 60 14 (some sharedRules)).world := by
  have hids : (sharedRules.filterMap LifecycleRule.ID).Nodup := by decide
  have hkept := (lifecycle_established_iff (some sharedRules) 30 14 (fun _ => none) hids
    (by decide +kernel)).mpr fun _ => ⟨by decide, by decide⟩
  have hchanged := (lifecycle_established_iff (some sharedRules) 60 14 (fun _ => none) hids
    (by decide +kernel)).mpr fun hup => absurd hup (by decide +kernel)
  exact ⟨⟨by decide +kernel, hkept⟩, by decide +kernel, hchanged⟩

/-- Rules of the right ids and days, the first of which is disabled. -/
def disabledRules : List LifecycleRule :=
  [⟨some "messages-expiry", false, some "messages/", some 30⟩,
    expiryRule "thumbnails-expiry" "thumbnails/" 30]

/-- The startup succeeds on them and leaves messages without an enabled rule. -/
theorem disabled_rule_kept : (start (fun _ => none) 30 30 (some disabledRules)).result = .ok () ∧
    (disabledRules.filterMap LifecycleRule.ID).Nodup ∧
    ¬ PoliciesInstalled disabledRules 30 30
      ((start (fun _ => none) 30 30 (some disabledRules)).world.getD []) := by
  refine ⟨by decide +kernel, by decide, fun h => ?_⟩
  have hcount := h.messages
  exact absurd hcount (by decide +kernel)

end Start

end WhisprMedia
