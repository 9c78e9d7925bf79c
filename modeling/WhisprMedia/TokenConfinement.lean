import WhisprMedia.Authentication
import WhisprMedia.PrivateMedia

/-! Private media, seen from outside: whoever is handed one bears a token of its owner, or of a user whom
a request with a token of the owner has listed. -/
namespace WhisprMedia
open Awaiting MediaService

/-! Requests and the calls that they become -/

/-- The users that a request lists. -/
def Endpoint.listed : Endpoint → List String
  | .upload dto => dto.sharedWith.getD []
  | .share _ userIds => userIds
  | _ => []

theorem route_listed {request : Request} {x : Call} (h : MediaController.route request = .ok x) :
    x.listed = request.endpoint.listed := by
  obtain ⟨u, endpoint⟩ := request
  have hcalls : endpoint.Calls u x := route_calls h
  cases hcalls <;> rfl

theorem requester_user {x : Call} {r : String} (h : x.requester? = some r) : x.user? = some r := by
  cases x with
  | getUserQuota | checkQuota | recordUpload | recordDelete | resetDailyUploads
  | checkAndPublishQuotaAlert => exact absurd h (by simp [Call.requester?])
  | _ => exact h

/-- The user of a call that a request has become is the user of the request. -/
theorem route_requester {request : Request} {x : Call} (h : MediaController.route request = .ok x)
    {r : String} (hr : x.requester? = some r) : r = request.authenticatedUserId :=
  Option.some.inj ((requester_user hr).symm.trans (route_user h))

/-! Threads of the HTTP layer as threads of the service -/

section Layers
variable {KeyObject : Type} {env : Env} {http : HttpEnv KeyObject} {q : HttpPool KeyObject}

/-- A request that was answered has made its call, with the same answer. -/
theorem ShowsAsCall.answered {t₁ : ApiThread} {o : Option ServiceThread} {request : Request}
    {rep : Reply} (h : ShowsAsCall t₁ o) (hcall : t₁.call = .request request)
    (hout : t₁.outcome = some (.ok rep)) : ∃ t₂, o = some t₂ ∧
      MediaController.route request = .ok t₂.call ∧ t₂.outcome = some (.ok rep) := by
  have hrest := Thread.rest_of_outcome hout
  cases o with
  | none =>
    obtain ⟨_, _, -, -, hpure⟩ := h
    exact absurd (Prog.pure.inj (hrest.symm.trans hpure)) (by simp)
  | some t₂ =>
    obtain ⟨-, ⟨hcall₂, -⟩ | ⟨req, hcall₂, hroute, hbind⟩⟩ := h
    · exact absurd (hcall.symm.trans hcall₂) (by simp)
    · obtain rfl := Task.request.inj (hcall.symm.trans hcall₂)
      refine ⟨t₂, rfl, hroute, ?_⟩
      rw [hrest] at hbind
      cases hr : t₂.rest with
      | step c k =>
        rw [hr] at hbind
        exact absurd hbind (by simp)
      | pure r =>
        rw [hr] at hbind
        have heq : (.ok rep : Except Err Reply) = r.bind MediaController.respond :=
          Prog.pure.inj hbind
        obtain ⟨reply, rfl, hreply⟩ := bind_eq_ok heq.symm
        rw [Thread.outcome, hr, respond_eq_ok hreply]

theorem http_refines_service
    (hq : (httpService env http faultless).Runs (fun _ _ => True) ⟨.start http, []⟩ q) :
    ∃ p : ServicePool, (service env).Runs (fun _ _ => True) ⟨World.empty, []⟩ p ∧
      p.world = q.world.service ∧
      (∀ t' ∈ q.threads, ∀ req rep, t'.call = .request req → t'.outcome = some (.ok rep) →
        ∃ t ∈ p.threads, t.outcome = some (.ok rep) ∧ ∃ request, EnteredAs t' request ∧
          MediaController.route request = .ok t.call) ∧
      ∀ t ∈ p.threads, ∃ t' ∈ q.threads, t.log = innerLog t'.log ∧ (t'.call.job? = some t.call ∨
        ∃ req request, t'.call = .request req ∧ request.endpoint = req.endpoint ∧
          EnteredAs t' request ∧ MediaController.route request = .ok t.call) := by
  obtain ⟨p₁, hp₁, hworld, hanswered, horigins⟩ := http_refines_requests hq
  obtain ⟨p₂, hp₂, hseen⟩ := Simulation.seen_runs (M := apiSimulation env)
    (Simulation.seen_empty _) hp₁
  refine ⟨p₂, hp₂, hseen.1.trans hworld, fun t' ht' req rep hcall hout => ?_, fun t ht => ?_⟩
  · obtain ⟨t₁, ht₁, hout₁, request, hcall₁, -, hentered⟩ := hanswered t' ht' req rep hcall hout
    obtain ⟨o, hshows, hmem⟩ := hseen.thread ht₁
    obtain ⟨t₂, rfl, hroute, hout₂⟩ := hshows.answered hcall₁ hout₁
    exact ⟨t₂, hmem t₂ rfl, hout₂, request, hentered, hroute⟩
  · obtain ⟨t₁, ht₁, hlog, hshows⟩ := hseen.origin ht
    obtain ⟨t', ht', hlog', hcalls⟩ := horigins t₁ ht₁
    refine ⟨t', ht', hlog.trans hlog', ?_⟩
    rcases hcalls with ⟨x, hx, hcall₁⟩ | ⟨req, request, hcall, hcall₁, hendpoint, hentered⟩
    · rcases hshows with ⟨hcall₂, -⟩ | ⟨req, hcall₂, -⟩
      · obtain rfl := Task.call.inj (hcall₁.symm.trans hcall₂)
        exact Or.inl hx
      · exact absurd (hcall₁.symm.trans hcall₂) (by simp)
    · rcases hshows with ⟨hcall₂, -⟩ | ⟨req₂, hcall₂, hroute, -⟩
      · exact absurd (hcall₁.symm.trans hcall₂) (by simp)
      · obtain rfl := Task.request.inj (hcall₁.symm.trans hcall₂)
        exact Or.inr ⟨req, request, hcall, hendpoint, hentered, hroute⟩

/-- The service has verified a token of the user for the request. -/
def TokenOf (env : Env) (t : HttpThread) (u : String) : Prop :=
  ∃ req token pem payload user, t.call = .request req ∧
    JwtAuthGuard.extractBearerToken req.authorization = some token ∧
    (⟨.inr (.verifyAsync token pem), .ok payload⟩ : HttpEvent) ∈ t.log ∧
    AuthUser.ofPayload payload = some user ∧ env.uuidIn user.userId = some u

/-- The request has addressed the media, and lists the user. -/
def ListsFor (env : Env) (t : HttpThread) (m : Media) (u : String) : Prop :=
  m.id ∈ (innerLog t.log).filterMap (addressedBy env) ∧
    ∃ req, t.call = .request req ∧ ∃ uid ∈ req.endpoint.listed, env.uuidIn uid = some u

theorem tokenOf_entered
    (hq : (httpService env http faultless).Runs (fun _ _ => True) ⟨.start http, []⟩ q)
    {t : HttpThread} (ht : t ∈ q.threads) {req : HttpRequest} (hcall : t.call = .request req)
    {request : Request} (hentered : EnteredAs t request) {u : String}
    (hu : env.uuidIn request.authenticatedUserId = some u) : TokenOf env t u := by
  obtain ⟨i, hi, hget⟩ := List.getElem_of_mem ht
  have hat : q.threads[i]? = some t := by rw [List.getElem?_eq_getElem hi, hget]
  obtain ⟨e, he, hcmd⟩ := hentered
  obtain ⟨pem, payload, user, log, rest, hlog, ⟨huser, token, htoken, -, rfl⟩, rfl⟩ :=
    entered_log hq hat hcall he hcmd
  refine ⟨req, token, pem, payload, user, hcall, htoken, ?_, huser, hu⟩
  rw [hlog]
  exact List.mem_append_left _ (by simp [guardLog])

end Layers

/-- Whoever is handed a private media by the HTTP service bears a verified token of its owner, or of a
user that a request with a verified token of the owner has listed for it. -/
theorem private_media_by_token {KeyObject : Type} (env : Env) (http : HttpEnv KeyObject)
    (q : HttpPool KeyObject)
    (hq : (httpService env http faultless).Runs (fun _ _ => True) ⟨.start http, []⟩ q)
    (t : HttpThread) (ht : t ∈ q.threads) (req : HttpRequest) (hcall : t.call = .request req)
    (rep : Reply) (hrep : t.outcome = some (.ok rep)) (m : Media)
    (hm : q.world.service.media.get m.id = some m)
    (hprivate : m.context ∉ PUBLIC_READABLE_CONTEXTS) (hd : rep.Discloses m) :
    ∃ u, TokenOf env t u ∧ (u = m.ownerId ∨
      ∃ t' ∈ q.threads, TokenOf env t' m.ownerId ∧ ListsFor env t' m u) := by
  obtain ⟨p, hp, hworld, hanswers, horigins⟩ := http_refines_service hq
  obtain ⟨t₁, ht₁, hout, request, hentered, hroute⟩ := hanswers t ht req rep hcall hrep
  obtain ⟨u, hu, hcleared⟩ := disclosed_to hp ht₁ hout (hworld ▸ hm) hprivate hd
  obtain ⟨r, hr, hru⟩ := Option.bind_eq_some_iff.mp hu
  obtain rfl := route_requester hroute hr
  refine ⟨u, tokenOf_entered hq ht hcall hentered hru, hcleared.imp_right fun hgrant => ?_⟩
  -- the call that has listed the user was made for a request of the owner
  obtain ⟨t₂, ht₂, howner, hid, uid, huid, huv⟩ := ownerListed_of_total hgrant
  obtain ⟨r₂, hr₂, howner⟩ := Option.bind_eq_some_iff.mp howner
  obtain ⟨t', ht', hlog, hjob | ⟨req', request', hcall', hendpoint, hentered', hroute'⟩⟩ :=
    horigins t₂ ht₂
  · -- jobs list nobody
    have hnobody : t₂.call.listed = [] := by
      cases hx : t'.call with
      | request req' =>
        rw [hx] at hjob
        exact absurd hjob (by simp [HttpCall.job?])
      | resetDailyUploads | checkAndPublishQuotaAlert =>
        rw [hx] at hjob
        rw [← Option.some.inj hjob]
        rfl
    rw [hnobody] at huid
    exact absurd huid List.not_mem_nil
  · obtain rfl := route_requester hroute' hr₂
    refine ⟨t', ht', tokenOf_entered hq ht' hcall' hentered' howner, hlog ▸ hid, req', hcall', uid, ?_,
      huv⟩
    rw [← hendpoint, ← route_listed hroute']
    exact huid

/-- A message is uploaded for another user, who asks for its URL. -/
def uploadFor (userId : String) : Endpoint :=
  .upload { exampleUploadDto with sharedWith := some [userId] }

def listedUrl : List (Label HttpCall HttpAct) :=
  keyLoaded ++ servedAlone 0 27 (bearing "t7" (uploadFor (exampleId 8))) ++
    servedAlone 2 11 (bearing "t8" (.getBlobUrl (exampleId 1) none))

theorem private_media_by_token_listed : ∃ q t, ∃ m : Media,
    (httpService exampleEnv exampleHttp faultless).play (fun _ _ => True) ⟨.start exampleHttp, []⟩
      listedUrl = some q ∧ t ∈ q.threads ∧ m.ownerId = exampleId 7 ∧
    t.call = .request (bearing "t8" (.getBlobUrl (exampleId 1) none)) ∧
    ∃ u, TokenOf exampleEnv t u ∧ (u = m.ownerId ∨
      ∃ t' ∈ q.threads, TokenOf exampleEnv t' m.ownerId ∧ ListsFor exampleEnv t' m u) := by
  have hplay : (((httpService exampleEnv exampleHttp faultless).play (fun _ _ => True)
      ⟨.start exampleHttp, []⟩ listedUrl).filter fun q => ∃ t ∈ q.threads,
        t.call = .request (bearing "t8" (.getBlobUrl (exampleId 1) none)) ∧
        ∃ m ∈ q.world.service.media.get (exampleId 1), m.ownerId = exampleId 7 ∧
          m.context ∉ PUBLIC_READABLE_CONTEXTS ∧
          t.outcome = some (.ok (.blobUrl ⟨⟨m.storagePath, 3600⟩, 3600000⟩))).isSome = true := by
    decide +kernel
  obtain ⟨q, hq⟩ := Option.isSome_iff_exists.mp hplay
  simp only [Option.filter_eq_some_iff, decide_eq_true_eq] at hq
  obtain ⟨hq, t, ht, hcall, m, hm, howner, hprivate, hout⟩ := hq
  have hid : m.id = exampleId 1 := media_id hm
  exact ⟨q, t, m, hq, ht, howner, hcall, private_media_by_token exampleEnv exampleHttp q
    (System.runs_of_play hq) t ht _ hcall _ hout m (hid ▸ hm) hprivate (Or.inl rfl)⟩

end WhisprMedia
