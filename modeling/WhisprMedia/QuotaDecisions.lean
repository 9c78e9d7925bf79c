import WhisprMedia.FailingSteps
import WhisprMedia.JsonRoundTrip
import WhisprMedia.JsonScalars
import WhisprMedia.SerialUploads

/-! The quota cache and the decision on an upload: what the cache stores is the text of a JSON
object, and what is read back from it decides as the row does. -/
namespace WhisprMedia
open Awaiting QuotaService JsonText

/-! The cached object -/

/-- `bigint` fields are texts in it, counters are numbers. -/
def quotaJson (cached : CachedQuota) : Json := .object [
  (units "id", .string (units cached.id)),
  (units "userId", .string (units cached.userId)),
  (units "storageUsed", .string (units cached.storageUsed)),
  (units "storageLimit", .string (units cached.storageLimit)),
  (units "filesCount", .number (.ofInt cached.filesCount)),
  (units "filesLimit", .number (.ofInt cached.filesLimit)),
  (units "dailyUploads", .number (.ofInt cached.dailyUploads)),
  (units "dailyUploadLimit", .number (.ofInt cached.dailyUploadLimit)),
  (units "quotaDate", .string (units (toString cached.quotaDate)))]

def jsonText : Json → Option String
  | .string s => (decodeUnits s).map String.ofList
  | _ => none

/-- A number is read without rounding as long as it is a safe integer. -/
def jsonInteger : Json → Option Int
  | .number n => ((decodeUnits n.text).bind readInteger).filter fun k => (JsNumber.int k).isSafeInteger
  | _ => none

def jsonDay (j : Json) : Option Int := (jsonText j).bind fun s => readInteger s.toList

/-- The fields that the service reads of a stored object. -/
def cachedOfJson (j : Json) : Option CachedQuota := do
  let id ← (j.member "id").bind jsonText
  let userId ← (j.member "userId").bind jsonText
  let storageUsed ← (j.member "storageUsed").bind jsonText
  let storageLimit ← (j.member "storageLimit").bind jsonText
  let filesCount ← (j.member "filesCount").bind jsonInteger
  let filesLimit ← (j.member "filesLimit").bind jsonInteger
  let dailyUploads ← (j.member "dailyUploads").bind jsonInteger
  let dailyUploadLimit ← (j.member "dailyUploadLimit").bind jsonInteger
  let quotaDate ← (j.member "quotaDate").bind jsonDay
  return {
    id, userId, storageUsed, storageLimit, filesCount, filesLimit, dailyUploads, dailyUploadLimit,
    quotaDate }

/-- What a hit holds after `cached` was stored: the object went through a text of JSON. -/
def jsonRoundTrip (cached : CachedQuota) : Option CachedQuota :=
  (parse (stringify (quotaJson cached))).bind cachedOfJson

/-- The counters of a row are numbers that JSON does not round. -/
structure SafeCounters (quota : UserQuota) : Prop where
  filesCount : (JsNumber.int quota.filesCount).isSafeInteger = true
  filesLimit : (JsNumber.int quota.filesLimit).isSafeInteger = true
  dailyUploads : (JsNumber.int quota.dailyUploads).isSafeInteger = true
  dailyUploadLimit : (JsNumber.int quota.dailyUploadLimit).isSafeInteger = true

section RoundTrip

theorem jsonText_string (s : String) : jsonText (.string (units s)) = some s := by
  simp only [jsonText, decodeUnits_units, Option.map_some, String.ofList_toList]

theorem readInteger_toString (n : ℤ) : readInteger (toString n).toList = some n := by
  have hread := bigInt_toString n
  unfold BigInt at hread
  split at hread
  · next k hk => rw [hk, Except.ok.inj hread]
  · exact absurd hread (by simp)

theorem jsonInteger_number {n : ℤ} (h : (JsNumber.int n).isSafeInteger = true) :
    jsonInteger (.number (.ofInt n)) = some n := by
  simp only [jsonInteger, Number.ofInt, decodeUnits_units, Option.bind_some, readInteger_toString]
  exact Option.filter_eq_some_iff.mpr ⟨rfl, h⟩

theorem jsonDay_string (n : ℤ) : jsonDay (.string (units (toString n))) = some n := by
  simp only [jsonDay, jsonText_string, Option.bind_some, readInteger_toString]

/-- The parser reads what was written. -/
theorem parse_quotaJson (cached : CachedQuota) :
    parse (stringify (quotaJson cached)) = some (quotaJson cached) := by
  have hparse := @parse_stringify (quotaJson cached) [] [] (by simp) (by simp)
  simpa using hparse

theorem jsonRoundTrip_toCached {quota : UserQuota} (h : SafeCounters quota) :
    jsonRoundTrip (toCached quota) = some (toCached quota) := by
  unfold jsonRoundTrip
  rw [parse_quotaJson, Option.bind_some]
  simp only [cachedOfJson, quotaJson, Json.member, List.reverse_cons, List.reverse_nil,
    List.nil_append, List.cons_append, List.find?_cons, units_inj]
  have hday : jsonDay (.string (units quota.quotaDate.repr)) = some quota.quotaDate :=
    jsonDay_string quota.quotaDate
  simp [jsonText_string, hday, toCached, jsonInteger_number h.filesCount,
    jsonInteger_number h.filesLimit, jsonInteger_number h.dailyUploads,
    jsonInteger_number h.dailyUploadLimit]

end RoundTrip

/-! Reads -/

section Reads
variable {env : Env} {fault : Cmd → Option Fault} {userId u : String} {q : UserQuota} {w : World}

/-- The row is read from a copy of it or from its table, also when the cache fails. -/
theorem getOrCreateQuota_reads (hu : env.uuidIn userId = some u) (hq : w.quotas.get u = some q)
    (hcache : ∀ cached, w.quotaCache (cacheKey userId) = some cached → cached = toCached q)
    (hfind : fault (.findQuota userId) = none) :
    ProgE.Ends (env.failing fault) (getOrCreateQuota userId) w
      (fun q' w' => q' = q ∧ w'.quotas = w.quotas) fun _ _ => False := by
  have hrow : ProgE.Ends (env.failing fault) (do
      let quota ← findOrInsertRow userId
      tryCatch (await (.setQuota (cacheKey userId) (toCached quota) QUOTA_CACHE_TTL_MS))
        fun _ => pure ()
      pure quota : Svc UserQuota) w (fun q' w' => q' = q ∧ w'.quotas = w.quotas)
      fun _ _ => False := by
    have hfound : env.failing fault (.findQuota userId) w = (.ok (some q), w) := by
      rw [failing_none hfind]
      simp only [Env.exec, hu, hq]
    -- the table answers with the row, and nothing is inserted
    have hread : ProgE.Ends (env.failing fault) (findOrInsertRow userId) w
        (fun q' w' => q' = q ∧ w' = w) fun _ _ => False :=
      ends_await_bind hfound (ProgE.ends_pure ⟨rfl, rfl⟩)
    refine ProgE.Ends.bind hread fun q' w' h => ?_
    obtain ⟨rfl, rfl⟩ := h
    have hset (r) (v : World) (hv : env.failing fault
        (.setQuota (cacheKey userId) (toCached q') QUOTA_CACHE_TTL_MS) w' = (r, v)) :
        v.quotas = w'.quotas := by
      have hfaithful := faithful_failing env fault
        (.setQuota (cacheKey userId) (toCached q') QUOTA_CACHE_TTL_MS) w'
      rw [hv] at hfaithful
      rcases hfaithful with rfl | rfl
      · rfl
      · rfl
    apply ends_tried_bind
    · intro _ v hv
      exact ProgE.ends_pure ⟨rfl, hset _ v hv⟩
    · intro _ v hv
      exact ProgE.ends_pure ⟨rfl, hset _ v hv⟩
  apply ends_tried_bind
  · intro cached v hv
    obtain ⟨-, hexec⟩ := failing_ok hv
    obtain ⟨hr, rfl⟩ := Prod.mk.inj hexec
    obtain rfl := Except.ok.inj hr
    cases hc : w.quotaCache (cacheKey userId) with
    | none => exact hrow
    | some e =>
      -- the copy is decoded to the row itself
      obtain rfl := hcache e hc
      refine ends_sync (fun q' hq' => ?_) fun e he => ?_
      · rw [ofCached_toCached] at hq'
        exact ⟨(Except.ok.inj hq').symm, rfl⟩
      · rw [ofCached_toCached] at he
        exact absurd he (by simp)
  · intro _ v hv
    have hfaithful := faithful_failing env fault (.getQuota (cacheKey userId)) w
    rw [hv] at hfaithful
    have hv' : v = w := by
      rcases hfaithful with h | h
      · exact h
      · exact h
    subst hv'
    exact hrow

theorem checkQuota_reads {blobSize : JsNumber} (hu : env.uuidIn userId = some u)
    (hq : w.quotas.get u = some q)
    (hcache : ∀ cached, w.quotaCache (cacheKey userId) = some cached → cached = toCached q)
    (hfind : fault (.findQuota userId) = none) (hsize : validateBlobSize blobSize = .ok ()) :
    ProgE.Ends (env.failing fault) (checkQuota userId blobSize) w
      (fun result _ => result = checkResult q blobSize.toBigInt) fun _ _ => False := by
  apply ends_sync_bind
  · intro e he
    rw [hsize] at he
    exact absurd he (by simp)
  · intro _ _
    refine ProgE.Ends.bind (getOrCreateQuota_reads hu hq hcache hfind) fun q' w' h => ?_
    rw [h.1]
    exact ProgE.ends_pure rfl

end Reads

/-! Decisions -/

/-- The faults of a cache that may fail, beside a healthy database. -/
def OfQuotaCache (fault : Cmd → Option Fault) : Prop :=
  ∀ c, (fault c).isSome → c.family = .quotaCache ∨ c.family = .quotaFill

/-- The cache misses, or holds what JSON makes of the copy of this row. -/
def CachesRow (w : World) (userId : String) (q : UserQuota) : Prop :=
  w.quotaCache (cacheKey userId) = none ∨
    w.quotaCache (cacheKey userId) = jsonRoundTrip (toCached q)

/-- Whatever the cache does, the decision is the one on the row, and a size that is no size is
refused before a store is read. -/
theorem quota_decision_uncached (env : Env) (fault : Cmd → Option Fault) (userId u : String)
    (q : UserQuota) (w : World) (hfault : OfQuotaCache fault) (hu : env.uuidIn userId = some u)
    (hq : w.quotas.get u = some q) (hcounters : SafeCounters q) (hcache : CachesRow w userId q)
    (blobSize : JsNumber) :
    let run := Prog.run (env.failing fault) (checkQuota userId blobSize).run w
    (validateBlobSize blobSize = .ok () → run.result = .ok (checkResult q blobSize.toBigInt)) ∧
    ∀ e, validateBlobSize blobSize = .error e → run.result = .error e ∧ run.log = [] := by
  have hcopy : ∀ cached, w.quotaCache (cacheKey userId) = some cached → cached = toCached q := by
    intro cached hc
    rcases hcache with hnone | hsome
    · rw [hnone] at hc
      exact absurd hc (by simp)
    · rw [hsome, jsonRoundTrip_toCached hcounters] at hc
      exact (Option.some.inj hc).symm
  have hfind : fault (.findQuota userId) = none := by
    cases hf : fault (.findQuota userId) with
    | none => rfl
    | some f =>
      rcases hfault (.findQuota userId) (by rw [hf]; rfl) with h | h
      · exact absurd h (by simp [Cmd.family])
      · exact absurd h (by simp [Cmd.family])
  refine ⟨fun hsize => ?_, fun e he => ?_⟩
  · have hends := (checkQuota_reads hu hq hcopy hfind hsize).ends
    split at hends
    · next result hr => rw [hr, hends]
    · exact hends.elim
  · have hrun : (checkQuota userId blobSize).run = .pure (.error e) := by
      unfold checkQuota
      rw [he]
      rfl
    simp only [hrun, Prog.run_pure, and_self]

/-- A full quota, read from the JSON of its copy while the cache refuses to be written. -/
def fullQuota : UserQuota where
  id := exampleId 1
  userId := exampleId 0
  storageUsed := 9007199254740993
  storageLimit := 9007199254740995
  filesCount := 3
  filesLimit := 1000
  dailyUploads := 0
  dailyUploadLimit := 100
  quotaDate := -1

def refusesWrites : Cmd → Option Fault
  | .setQuota _ _ _ => some ⟨"OOM command not allowed when used memory > 'maxmemory'", false⟩
  | _ => none

theorem fullQuota_safe : SafeCounters fullQuota := ⟨by decide, by decide, by decide, by decide⟩

def fullQuotaWorld : World :=
  { World.empty with
    quotas := Keyed.Table.empty.insert fullQuota
    quotaCache := fun _ => jsonRoundTrip (toCached fullQuota) }

theorem quota_decision_uncached_full :
    (Prog.run (exampleEnv.failing refusesWrites) (checkQuota (exampleId 0) (.int 3)).run
      fullQuotaWorld).result = .ok (checkResult fullQuota 3) := by
  have hrow : fullQuotaWorld.quotas.get (exampleId 0) = some fullQuota := by decide +kernel
  have hcache : CachesRow fullQuotaWorld (exampleId 0) fullQuota := by
    simp only [CachesRow, fullQuotaWorld, or_true]
  have hfault : OfQuotaCache refusesWrites := by
    intro c hc
    cases c with
    | setQuota key entry ttl => exact Or.inr rfl
    | _ => exact absurd hc (by simp [refusesWrites])
  have hsize : validateBlobSize (.int 3) = .ok () := by decide +kernel
  exact (quota_decision_uncached exampleEnv refusesWrites (exampleId 0) (exampleId 0) fullQuota
    fullQuotaWorld hfault (exampleId_canonical 0) hrow fullQuota_safe hcache (.int 3)).1 hsize

end WhisprMedia
