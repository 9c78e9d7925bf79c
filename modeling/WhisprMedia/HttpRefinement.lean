import WhisprMedia.HttpService
import WhisprMedia.PoolSimulation
import WhisprMedia.WriteIsolation

/-! What the HTTP layer adds changes no answer: the requests that pass the guard go as requests of the
service alone, whatever the others do, and whichever dependency fails. -/
namespace WhisprMedia
open Awaiting MediaService

/-! Calls without what they tell others -/

section Erasure
variable {α β : Type} {x : Svc α} {y : Svc β} {env : Env}

/-- A call of the HTTP layer goes as a call of the service does, apart from what it tells others. -/
abbrev GoesAs {α' : Type} (V : α' → α → Prop) (x' : Http α') (x : Svc α) : Prop :=
  ProgE.Erases HttpErr.exception V x' x

abbrev SameAs (x' : Http α) (x : Svc α) : Prop := GoesAs (fun a' a => a' = a) x' x

theorem sameAs_within (x : Svc α) : SameAs (within x) x := ProgE.erases_inner x

theorem sameAs_within_bind {f' : β → Http α} {f : β → Svc α} (h : ∀ b, SameAs (f' b) (f b)) :
    SameAs (within y >>= f') (y >>= f) := ProgE.erases_inner_bind h

theorem sameAs_within_last {f' : α → Http α} (h : ∀ a, SameAs (f' a) (pure a)) :
    SameAs (within x >>= f') x := by
  have hbind : SameAs (within x >>= f') (x >>= fun a => pure a) := sameAs_within_bind h
  rwa [ProgE.bind_pure] at hbind

theorem sameAs_tell_bind {c : HttpCmd} {f' : c.Reply → Http α} (h : ∀ r, SameAs (f' r) x) :
    SameAs (tell c >>= f') x := ProgE.erases_outer_bind h

theorem SameAs.map {x' : Http α} (h : SameAs x' x) (f : α → β) : SameAs (f <$> x') (f <$> x) :=
  ProgE.Erases.map h fun _ _ heq => congrArg f heq

theorem sameAs_pure (a : α) : SameAs (pure a) (pure a) := ProgE.erases_pure rfl

theorem sameAs_uploadHeld (ownerId : String) (file : File) (context : MediaContext)
    (thumbnailFile : Option File) (sharedWith : Option (List String)) :
    SameAs (HttpService.uploadHeld env ownerId file context thumbnailFile sharedWith)
      (uploadHeld env ownerId file context thumbnailFile sharedWith) := by
  refine sameAs_within_bind fun _ => sameAs_within_bind fun _ => sameAs_within_bind fun _ =>
    sameAs_within_bind fun duplicate => ?_
  cases duplicate with
  | some existing => exact sameAs_within_bind fun _ => sameAs_within _
  | none =>
    exact sameAs_within_bind fun media => sameAs_within_bind fun _ => sameAs_within_bind fun _ =>
      sameAs_tell_bind fun _ => sameAs_tell_bind fun _ => sameAs_within _

theorem sameAs_upload (ownerId : String) (file : File) (context : MediaContext)
    (thumbnailFile : Option File) (sharedWith : Option (List String)) :
    SameAs (HttpService.upload env ownerId file context thumbnailFile sharedWith)
      (upload env ownerId file context thumbnailFile sharedWith) :=
  sameAs_within_bind fun _ =>
    ProgE.Erases.ensuring (sameAs_uploadHeld ownerId file context thumbnailFile sharedWith)

section Reads
variable (id requesterId : String) (ipAddress userAgent : Option String)

theorem sameAs_getBlob : SameAs (HttpService.getBlob env id requesterId ipAddress userAgent)
    (getBlob env id requesterId) := by
  refine sameAs_within_bind fun media => ?_
  exact sameAs_within_last fun dto => sameAs_tell_bind fun _ => sameAs_tell_bind fun _ =>
    sameAs_pure dto

theorem sameAs_getThumbnail :
    SameAs (HttpService.getThumbnail env id requesterId ipAddress userAgent)
      (getThumbnail env id requesterId) := by
  refine sameAs_within_bind fun media => ?_
  cases truthy media.thumbnailPath with
  | none => exact sameAs_pure _
  | some path =>
    exact sameAs_within_bind fun url => sameAs_within_bind fun now => sameAs_tell_bind fun _ =>
      sameAs_tell_bind fun _ => sameAs_pure _

theorem sameAs_streamBlob : SameAs (HttpService.streamBlob id requesterId ipAddress userAgent)
    (streamBlob id requesterId) :=
  sameAs_within_bind fun _ => sameAs_within_bind fun _ => sameAs_tell_bind fun _ => sameAs_pure _

theorem sameAs_streamThumbnail :
    SameAs (HttpService.streamThumbnail id requesterId ipAddress userAgent)
      (streamThumbnail id requesterId) := by
  refine sameAs_within_bind fun media => ?_
  cases truthy media.thumbnailPath with
  | none => exact sameAs_pure _
  | some path => exact sameAs_within_bind fun _ => sameAs_tell_bind fun _ => sameAs_pure _

theorem sameAs_delete : SameAs (HttpService.delete id requesterId ipAddress userAgent)
    (delete id requesterId) := by
  refine sameAs_within_bind fun media => sameAs_within_bind fun _ => sameAs_within_bind fun _ => ?_
  exact sameAs_within_last fun a => sameAs_tell_bind fun _ => sameAs_tell_bind fun _ =>
    ProgE.erases_outer_then fun _ => rfl

end Reads

theorem sameAs_handle (ipAddress userAgent : Option String) (x : Call) :
    SameAs (HttpService.handle env ipAddress userAgent x) (handle env x) := by
  cases x with
  | upload ownerId file context thumbnailFile sharedWith =>
    exact (sameAs_upload ownerId file context thumbnailFile sharedWith).map _
  | delete id requesterId => exact (sameAs_delete id requesterId ipAddress userAgent).map _
  | getBlob id requesterId => exact (sameAs_getBlob id requesterId ipAddress userAgent).map _
  | getThumbnail id requesterId =>
    exact (sameAs_getThumbnail id requesterId ipAddress userAgent).map _
  | streamBlob id requesterId => exact (sameAs_streamBlob id requesterId ipAddress userAgent).map _
  | streamThumbnail id requesterId =>
    exact (sameAs_streamThumbnail id requesterId ipAddress userAgent).map _
  | _ => exact sameAs_within _

theorem sameAs_respond (req : HttpRequest) (request : Request) :
    SameAs (HttpService.respond env req request) (MediaController.handle env request) := by
  refine sameAs_within_bind fun x => ?_
  exact ProgE.Erases.bind (sameAs_handle (HttpService.extractClientIp req) req.userAgent x)
    fun reply _ heq => heq ▸ sameAs_within _

end Erasure

/-! Before the guard has let a request through -/

/-- The commands of the guard. -/
def OfGuard : Cmd ⊕ HttpCmd → Prop
  | .inr .getPublicKeyPem => True
  | .inr (.verifyAsync _ _) => True
  | .inr (.getRevocation _) => True
  | _ => False

/-- What is left of a request is up to the guard; if it lets the request through, the controller is
entered for the endpoint. -/
def Waits (env : Env) (req : HttpRequest) : Prog (Cmd ⊕ HttpCmd) (SumReply Cmd.Reply HttpCmd.Reply)
    (Except HttpErr Reply) → Prop
  | .pure r => ∃ e, r = .error e
  | .step (.inl _) _ => False
  | .step (.inr c) k => (OfGuard (.inr c) ∧ ∀ r, Waits env req (k r)) ∨
      ∃ request, c = .enter request ∧ request.endpoint = req.endpoint ∧
        ∀ r, k r = (HttpService.respond env req request).run

section Guard
variable {α : Type} {env : Env} {req : HttpRequest}

theorem waits_bind {x : Http α} {f : α → Http Reply} (hx : x.Issues OfGuard)
    (hf : ∀ a, Waits env req (f a).run) : Waits env req (x >>= f).run := by
  rw [ProgE.run_bind_eq]
  generalize hp : x.run = p
  have hi : p.Issues OfGuard := hp ▸ hx
  clear hp hx
  induction p with
  | pure r =>
    cases r with
    | ok a => exact hf a
    | error e => exact ⟨e, rfl⟩
  | step c k ih =>
    cases c with
    | inl c => exact hi.1.elim
    | inr c => exact Or.inl ⟨hi.1, fun r => ih r (hi.2 r)⟩

theorem tell_issues {c : HttpCmd} (h : OfGuard (.inr c)) : (tell c).Issues OfGuard :=
  ⟨h, fun _ => trivial⟩

theorem checkRevocation_issues (user : AuthUser) :
    (JwtAuthGuard.checkRevocation user).Issues OfGuard := by
  refine ProgE.Issues.bind (tell_issues trivial) fun token => ?_
  refine ProgE.Issues.bind (tell_issues trivial) fun device => ?_
  split
  · exact ProgE.issues_pure _
  · exact ProgE.issues_throw _
  · exact ProgE.issues_throw _
  · exact ProgE.issues_throw _

theorem authenticate_issues (token : String) :
    (JwtAuthGuard.authenticate token).Issues OfGuard := by
  refine ProgE.Issues.bind (tell_issues trivial) fun pem => ?_
  split
  · exact ProgE.issues_throw _
  · refine ProgE.Issues.bind (tell_issues trivial) fun verified => ?_
    split
    · exact ProgE.issues_throw _
    · split
      · exact ProgE.issues_throw _
      · exact checkRevocation_issues _

theorem canActivate_issues (isPublic : Bool) (authorization : Option String) :
    (JwtAuthGuard.canActivate isPublic authorization).Issues OfGuard := by
  unfold JwtAuthGuard.canActivate
  split
  · exact ProgE.issues_pure _
  · split
    · exact ProgE.issues_throw _
    · exact (authenticate_issues _).map

theorem serve_waits (env : Env) (req : HttpRequest) :
    Waits env req (HttpService.serve env req).run :=
  waits_bind (canActivate_issues _ _) fun _ => Or.inr ⟨_, rfl, rfl, fun _ => rfl⟩

end Guard

/-! The simulation -/

/-- The request of the thread has been let through as `request`. -/
def EnteredAs (t : HttpThread) (request : Request) : Prop :=
  ∃ e ∈ t.log, e.1 = Sum.inr (HttpCmd.enter request)

theorem enteredAs_append {x : HttpCall} {log : List HttpEvent} {e : HttpEvent}
    {rest rest' : Prog (Cmd ⊕ HttpCmd) (SumReply Cmd.Reply HttpCmd.Reply) (Except HttpErr Reply)}
    {request : Request} : EnteredAs ⟨x, log ++ [e], rest⟩ request ↔
      EnteredAs ⟨x, log, rest'⟩ request ∨ e.1 = Sum.inr (HttpCmd.enter request) := by
  constructor
  · rintro ⟨e', he', hcmd⟩
    rcases List.mem_append.mp he' with he' | he'
    · exact Or.inl ⟨e', he', hcmd⟩
    · exact Or.inr (List.mem_singleton.mp he' ▸ hcmd)
  · rintro (⟨e', he', hcmd⟩ | hcmd)
    · exact ⟨e', List.mem_append_left _ he', hcmd⟩
    · exact ⟨e, List.mem_append_right _ List.mem_cons_self, hcmd⟩

/-- What a thread of the HTTP layer shows as to the service: a request that the guard has let through,
a job, or nothing. -/
def ShowsAs (env : Env) (t' : HttpThread) : Option ApiThread → Prop
  | none => ∃ req, t'.call = .request req ∧ (∀ request, ¬ EnteredAs t' request) ∧
      innerLog t'.log = [] ∧ Waits env req t'.rest
  | some t => t.log = innerLog t'.log ∧
      Prog.Erases (ProgE.Corresponds HttpErr.exception fun a' a => a' = a) t'.rest t.rest ∧
      ((∃ x, t'.call.job? = some x ∧ t.call = .call x) ∨
        ∃ req request, t'.call = .request req ∧ t.call = .request request ∧
          request.endpoint = req.endpoint ∧ EnteredAs t' request)

section Simulation
variable {KeyObject : Type} {env : Env} {http : HttpEnv KeyObject}
  {fault : Cmd → World → Option Fault}

theorem service_exec (c : HttpCmd) (w : HttpWorld KeyObject) :
    (http.exec c w).2.service = w.service := by
  cases c <;> rfl

theorem showsAs_job {x' : HttpCall} {x : Call} (hx : x'.job? = some x) :
    ShowsAs env ((httpService env http fault).start x') (some ((api env fault).start (.call x))) := by
  refine ⟨rfl, ?_, Or.inl ⟨x, hx, rfl⟩⟩
  cases x' with
  | request req => simp [HttpCall.job?] at hx
  | resetDailyUploads =>
    obtain rfl := Option.some.inj hx
    exact sameAs_within _
  | checkAndPublishQuotaAlert userId =>
    obtain rfl := Option.some.inj hx
    exact sameAs_within _

theorem showsAs_start (x' : HttpCall) :
    ∃ o, ShowsAs env ((httpService env http fault).start x') o ∧
      ∀ t ∈ o, ∃ x, t = (api env fault).start x := by
  cases hx : x'.job? with
  | some x =>
    refine ⟨some _, showsAs_job hx, fun t ht => ⟨.call x, ?_⟩⟩
    exact (Option.some.inj ht).symm
  | none =>
    cases x' with
    | request req =>
      have hoff : ∀ request, ¬ EnteredAs ((httpService env http fault).start (.request req)) request :=
        fun _ ⟨_, he, _⟩ => absurd he List.not_mem_nil
      exact ⟨none, ⟨req, rfl, hoff, rfl, serve_waits env req⟩, by simp⟩
    | resetDailyUploads => simp [HttpCall.job?] at hx
    | checkAndPublishQuotaAlert userId => simp [HttpCall.job?] at hx

/-- One more event of the layer. -/
theorem innerLog_told {log : List HttpEvent}
    {c : HttpCmd} {r : c.Reply} :
    (innerLog (log ++ [⟨.inr c, r⟩] : List HttpEvent) : ServiceLog) = innerLog log := by
  rw [innerLog_append]
  exact List.append_nil _

theorem showsAs_step (x' : HttpCall) (log : List HttpEvent) (c : Cmd ⊕ HttpCmd)
    (k : SumReply Cmd.Reply HttpCmd.Reply c → Prog (Cmd ⊕ HttpCmd)
      (SumReply Cmd.Reply HttpCmd.Reply) (Except HttpErr Reply)) (o : Option ApiThread)
    (w : HttpWorld KeyObject) (h : ShowsAs env ⟨x', log, .step c k⟩ o) :
    ShowsStep (api env fault) (httpService env http fault) HttpWorld.service (ShowsAs env) w c
      ⟨x', log ++ [⟨c, ((httpService env http fault).exec c w).1⟩],
        k ((httpService env http fault).exec c w).1⟩ o := by
  cases o with
  | none =>
    obtain ⟨req, hcall, hoff, hlog, hrest⟩ := h
    cases c with
    | inl c => exact hrest.elim
    | inr c =>
      have hlog' {r : c.Reply} := (innerLog_told (r := r)).trans hlog
      rcases hrest with ⟨hguard, hk⟩ | ⟨request, rfl, hendpoint, hk⟩
      · refine .silent (service_exec c w) rfl ⟨req, hcall, fun request hentered => ?_, hlog', hk _⟩
        -- a command of the guard is no entry
        refine (enteredAs_append.mp hentered).elim (hoff request) fun hcmd => ?_
        obtain rfl := Sum.inr.inj hcmd
        exact hguard
      · have hservice : (http.exec (.enter request) w).2.service = w.service := service_exec _ w
        refine .enters (.request request) hservice rfl ⟨hlog'.symm, ?_, Or.inr ?_⟩
        · rw [hk]
          exact sameAs_respond req request
        · exact ⟨req, request, hcall, rfl, hendpoint, _, List.mem_append_right _
            List.mem_cons_self, rfl⟩
  | some t =>
    obtain ⟨x, tlog, rest⟩ := t
    obtain ⟨hlog, herases, hcall⟩ := h
    have hcall' {e : HttpEvent} :
        (∃ y, x'.job? = some y ∧ x = .call y) ∨ ∃ req request, x' = .request req ∧
          x = .request request ∧ request.endpoint = req.endpoint ∧
          EnteredAs ⟨x', log ++ [e], .pure (.ok .done)⟩ request := by
      rcases hcall with hjob | ⟨req, request, hx', hx, hendpoint, hentered⟩
      · exact Or.inl hjob
      · exact Or.inr ⟨req, request, hx', hx, hendpoint, enteredAs_append.mpr (Or.inl hentered)⟩
    cases c with
    | inr c => exact .silent (service_exec c w) rfl ⟨hlog.trans innerLog_told.symm, herases _, hcall'⟩
    | inl d =>
      obtain ⟨kd, rfl, hk⟩ := herases
      have hthread {r : d.Reply} : ShowsAs env
          ⟨x', log ++ [⟨.inl d, r⟩], k r⟩ (some ⟨x, tlog ++ [⟨d, r⟩], kd r⟩) := by
        refine ⟨?_, hk r, hcall'⟩
        show tlog ++ [⟨d, r⟩] = innerLog (log ++ [⟨.inl d, r⟩])
        rw [innerLog_append]
        exact congrArg (· ++ [⟨d, r⟩]) hlog
      cases d with
      | spawnQuotaAlert userId =>
        refine .issues rfl [(.checkAndPublishQuotaAlert userId,
          .call (.checkAndPublishQuotaAlert userId))] rfl rfl (fun e he => ?_) hthread
        obtain rfl := List.mem_singleton.mp he
        exact showsAs_job rfl
      | _ => exact .issues rfl [] rfl rfl (fun e he => absurd he List.not_mem_nil) hthread

theorem service_act (a : HttpAct) (w : HttpWorld KeyObject) :
    (a.apply http w).service = w.service ∨ ∃ b : Act, (a.apply http w).service = b.apply w.service := by
  cases a with
  | service b => exact Or.inr ⟨b, rfl⟩
  | _ => exact Or.inl rfl

/-- The HTTP service shows as the service alone. -/
def httpSimulation (env : Env) (http : HttpEnv KeyObject) (fault : Cmd → World → Option Fault) :
    Simulation (api env fault) (httpService env http fault) where
  part := HttpWorld.service
  shows := ShowsAs env
  start := showsAs_start
  act := service_act
  step := showsAs_step

/-- The answer of a thread is the answer of the thread that it shows as. -/
theorem ShowsAs.outcome {t' : HttpThread} {t : ApiThread} (h : ShowsAs env t' (some t))
    {a : Except HttpErr Reply} (ha : t'.outcome = some a) :
    ∃ b, t.outcome = some b ∧ a = b.mapError HttpErr.exception := by
  obtain ⟨x', log, rest⟩ := t'
  obtain ⟨-, herases, -⟩ := h
  obtain rfl := Thread.rest_of_outcome ha
  obtain ⟨b, hb, hab⟩ := herases
  refine ⟨b, by rw [Thread.outcome, hb], ?_⟩
  cases a with
  | ok a =>
    cases b with
    | ok b => exact congrArg Except.ok hab
    | error e => exact hab.elim
  | error e =>
    cases b with
    | ok b => exact hab.elim
    | error e' => exact congrArg Except.error hab

/-- What the service alone does for a thread of the HTTP layer: nothing for a request that the guard
has not let through, and the same for a request that it has let through, and for a job. -/
def ServedAs (t' : HttpThread) : Option ApiThread → Prop
  | none => ∃ req, t'.call = .request req ∧ (∀ request, ¬ EnteredAs t' request) ∧
      innerLog t'.log = [] ∧ ∀ a, t'.outcome = some a → ∃ e, a = .error e
  | some t => t.log = innerLog t'.log ∧
      (∀ a, t'.outcome = some a → ∃ b, t.outcome = some b ∧ a = b.mapError HttpErr.exception) ∧
      ((∃ x, t'.call.job? = some x ∧ t.call = .call x) ∨
        ∃ req request, t'.call = .request req ∧ t.call = .request request ∧
          request.endpoint = req.endpoint ∧ EnteredAs t' request)

theorem ShowsAs.served {t' : HttpThread} {o : Option ApiThread} (h : ShowsAs env t' o) :
    ServedAs t' o := by
  cases o with
  | none =>
    obtain ⟨req, hcall, hoff, hlog, hrest⟩ := h
    refine ⟨req, hcall, hoff, hlog, fun a ha => ?_⟩
    rw [Thread.rest_of_outcome ha] at hrest
    exact hrest
  | some t => exact ⟨h.1, fun a ha => h.outcome ha, h.2.2⟩

end Simulation

/-- Whatever the HTTP service does, the service alone can do: its stores are the same, and its threads
are the jobs and the requests that have passed the guard, with the same commands and answers. -/
theorem http_refines_api {KeyObject : Type} (env : Env) (http : HttpEnv KeyObject)
    (fault : Cmd → World → Option Fault) (q : HttpPool KeyObject)
    (h : (httpService env http fault).Runs (fun _ _ => True) ⟨.start http, []⟩ q) :
    ∃ p : ApiPool, (api env fault).Runs (fun _ _ => True) ⟨World.empty, []⟩ p ∧
      p.world = q.world.service ∧
      ∃ view : List (HttpThread × Option ApiThread), view.map Prod.fst = q.threads ∧
        p.threads.Perm (view.filterMap Prod.snd) ∧ ∀ e ∈ view, ServedAs e.1 e.2 := by
  obtain ⟨p, hp, hworld, view, hfst, hshows, hperm⟩ :=
    Simulation.seen_runs (M := httpSimulation env http fault) (Simulation.seen_empty _) h
  exact ⟨p, hp, hworld, view, hfst, hperm, fun e he => (hshows e he).served⟩

/-- A user uploads; a forged token gets nowhere. -/
def uploadAndForgery : List (Label HttpCall HttpAct) :=
  keyLoaded ++ servedAlone 0 27 (bearing "t7" (.upload exampleUploadDto)) ++
    servedAlone 2 2 (bearing "forged" .getQuota)

theorem http_refines_api_upload : ∃ q, (httpService exampleEnv exampleHttp faultless).play
      (fun _ _ => True) ⟨.start exampleHttp, []⟩ uploadAndForgery = some q ∧
    q.world.service.media.rows.length = 1 ∧
    (∃ t ∈ q.threads, t.outcome = some (.error .unauthorized)) ∧
    ∃ p : ApiPool, (api exampleEnv faultless).Runs (fun _ _ => True) ⟨World.empty, []⟩ p ∧
      p.world = q.world.service ∧
      ∃ view : List (HttpThread × Option ApiThread), view.map Prod.fst = q.threads ∧
        p.threads.Perm (view.filterMap Prod.snd) ∧ ∀ e ∈ view, ServedAs e.1 e.2 := by
  have hplay : (((httpService exampleEnv exampleHttp faultless).play (fun _ _ => True)
      ⟨.start exampleHttp, []⟩ uploadAndForgery).filter fun q =>
        q.world.service.media.rows.length = 1 ∧
          ∃ t ∈ q.threads, t.outcome = some (.error .unauthorized)).isSome = true := by
    decide +kernel
  obtain ⟨q, hq⟩ := Option.isSome_iff_exists.mp hplay
  simp only [Option.filter_eq_some_iff, decide_eq_true_eq] at hq
  obtain ⟨hq, hrows, hrefused⟩ := hq
  exact ⟨q, hq, hrows, hrefused,
    http_refines_api exampleEnv exampleHttp faultless q (System.runs_of_play hq)⟩

/-! Endpoints as calls -/

/-- What the controller may make of an endpoint for a user. -/
inductive Endpoint.Calls (u : String) : Endpoint → Call → Prop
  | upload {dto : UploadMediaDto} {file : File} (given : dto.file = some file) :
      Calls u (.upload dto)
        (.upload u file (dto.context.getD .MESSAGE) dto.thumbnail dto.sharedWith)
  | getMyMedia {rawPage rawLimit : Option Int} {page limit : ℕ} :
      Calls u (.getMyMedia rawPage rawLimit) (.getUserMedia u page limit)
  | getQuota : Calls u .getQuota (.getUserQuota u)
  | getMetadata {id : String} : Calls u (.getMetadata id) (.getMetadata id u)
  | getBlob {id : String} {stream : Option String} : Calls u (.getBlobUrl id stream) (.getBlob id u)
  | streamBlob {id : String} {stream : Option String} :
      Calls u (.getBlobUrl id stream) (.streamBlob id u)
  | getThumbnail {id : String} {stream : Option String} :
      Calls u (.getThumbnailUrl id stream) (.getThumbnail id u)
  | streamThumbnail {id : String} {stream : Option String} :
      Calls u (.getThumbnailUrl id stream) (.streamThumbnail id u)
  | share {id : String} {userIds : List String} : Calls u (.share id userIds) (.share id u userIds)
  | delete {id : String} : Calls u (.delete id) (.delete id u)

theorem route_calls {request : Request} {x : Call} (h : MediaController.route request = .ok x) :
    request.endpoint.Calls request.authenticatedUserId x := by
  obtain ⟨u, endpoint⟩ := request
  cases endpoint with
  | upload dto =>
    simp only [MediaController.route, MediaController.upload] at h
    split at h
    · exact absurd h (by simp)
    · next file hfile =>
      obtain ⟨_, -, h⟩ := bind_eq_ok h
      obtain ⟨_, howner, h⟩ := bind_eq_ok h
      obtain ⟨_, -, h⟩ := bind_eq_ok h
      obtain ⟨_, -, h⟩ := bind_eq_ok h
      obtain rfl := Except.ok.inj h
      have howner : dto.ownerId.getD u = u := by simpa using throwIf_eq_ok.mp howner
      rw [howner]
      exact .upload hfile
  | getMyMedia page limit =>
    obtain rfl := Except.ok.inj h
    exact .getMyMedia
  | getQuota =>
    obtain rfl := Except.ok.inj h
    exact .getQuota
  | getBlobUrl id stream =>
    obtain ⟨_, -, h⟩ := bind_eq_ok h
    obtain rfl := Except.ok.inj h
    show Endpoint.Calls u _ (if MediaController.isStream stream then _ else _)
    split
    · exact .streamBlob
    · exact .getBlob
  | getThumbnailUrl id stream =>
    obtain ⟨_, -, h⟩ := bind_eq_ok h
    obtain rfl := Except.ok.inj h
    show Endpoint.Calls u _ (if MediaController.isStream stream then _ else _)
    split
    · exact .streamThumbnail
    · exact .getThumbnail
  | getMetadata id =>
    obtain ⟨_, -, h⟩ := bind_eq_ok h
    obtain rfl := Except.ok.inj h
    exact .getMetadata
  | share id userIds =>
    obtain ⟨_, -, h⟩ := bind_eq_ok h
    obtain rfl := Except.ok.inj h
    exact .share
  | delete id =>
    obtain ⟨_, -, h⟩ := bind_eq_ok h
    obtain rfl := Except.ok.inj h
    exact .delete

theorem respond_eq_ok {reply rep : Reply} (h : MediaController.respond reply = .ok rep) :
    reply = rep := by
  unfold MediaController.respond at h
  split at h
  · exact absurd h (by simp)
  · exact Except.ok.inj h

/-! Requests that were answered, and the requests of the service alone -/

section Requests
variable {KeyObject : Type} {env : Env} {http : HttpEnv KeyObject}
  {fault : Cmd → World → Option Fault} {q : HttpPool KeyObject}
  {ok : HttpPool KeyObject → Label HttpCall HttpAct → Prop}

/-- A request that was answered is one that the service alone has answered so, and what the service
alone has served has come through the HTTP layer. -/
theorem http_refines_requests (hq : (httpService env http fault).Runs ok ⟨.start http, []⟩ q) :
    ∃ p : ApiPool, (api env fault).Runs (fun _ _ => True) ⟨World.empty, []⟩ p ∧
      p.world = q.world.service ∧
      (∀ t' ∈ q.threads, ∀ req rep, t'.call = .request req → t'.outcome = some (.ok rep) →
        ∃ t ∈ p.threads, t.outcome = some (.ok rep) ∧ ∃ request, t.call = .request request ∧
          request.endpoint = req.endpoint ∧ EnteredAs t' request) ∧
      ∀ t ∈ p.threads, ∃ t' ∈ q.threads, t.log = innerLog t'.log ∧
        ((∃ x, t'.call.job? = some x ∧ t.call = .call x) ∨
          ∃ req request, t'.call = .request req ∧ t.call = .request request ∧
            request.endpoint = req.endpoint ∧ EnteredAs t' request) := by
  obtain ⟨p, hp, hseen⟩ := Simulation.seen_runs (M := httpSimulation env http fault)
    (Simulation.seen_empty _) hq
  refine ⟨p, hp, hseen.1, fun t' ht' req rep hcall hout => ?_, fun t ht => ?_⟩
  · obtain ⟨o, hshows, hmem⟩ := hseen.thread ht'
    cases o with
    | none =>
      obtain ⟨_, -, -, -, hwaits⟩ := hshows
      rw [Thread.rest_of_outcome hout] at hwaits
      obtain ⟨e, he⟩ := hwaits
      exact absurd he (by simp)
    | some t =>
      have hshows : ShowsAs env t' (some t) := hshows
      obtain ⟨b, hb, hab⟩ := hshows.outcome hout
      obtain ⟨-, -, ⟨x, hx, -⟩ | ⟨req', request, hcall', hcall₁, hendpoint, hentered⟩⟩ := hshows
      · rw [hcall] at hx
        exact absurd hx (by simp [HttpCall.job?])
      obtain rfl := HttpCall.request.inj (hcall.symm.trans hcall')
      obtain rfl : b = .ok rep := by
        cases b with
        | ok rep' => exact congrArg Except.ok (Except.ok.inj hab).symm
        | error e => exact absurd hab (by simp [Except.mapError])
      exact ⟨t, hmem t rfl, hb, request, hcall₁, hendpoint, hentered⟩
  · obtain ⟨t', ht', hlog, -, hshows⟩ := hseen.origin ht
    exact ⟨t', ht', hlog, hshows⟩

end Requests

/-! Requests as calls of the service -/

/-- The call that a request makes; its answer goes through `respond`. -/
def ShowsAsCall (t' : ApiThread) : Option ServiceThread → Prop
  | none => ∃ req e, t'.call = .request req ∧ MediaController.route req = .error e ∧
      t'.rest = .pure (.error e)
  | some t => t.log = t'.log ∧ ((t'.call = .call t.call ∧ t'.rest = t.rest) ∨
      ∃ req, t'.call = .request req ∧ MediaController.route req = .ok t.call ∧
        t'.rest = t.rest >>= fun r => .pure (r.bind MediaController.respond))

section Calls
variable {env : Env}

theorem handle_run {req : Request} {x : Call} (h : MediaController.route req = .ok x) :
    (MediaController.handle env req).run =
      ((handle env x).run >>= fun r => .pure (r.bind MediaController.respond)) := by
  have hrun : (MediaController.handle env req).run =
      (handle env x >>= fun reply => sync (MediaController.respond reply)).run := by
    unfold MediaController.handle
    rw [h]
    rfl
  rw [hrun, ProgE.run_bind_eq]
  refine congrArg ((handle env x).run >>= ·) (funext fun r => ?_)
  cases r <;> rfl

theorem showsAsCall_start (x' : Task) :
    ∃ o, ShowsAsCall ((api env faultless).start x') o ∧
      ∀ t ∈ o, ∃ x, t = (service env).start x := by
  cases x' with
  | call x => exact ⟨some ((service env).start x), ⟨rfl, Or.inl ⟨rfl, rfl⟩⟩, by simp⟩
  | request req =>
    cases hroute : MediaController.route req with
    | ok x =>
      exact ⟨some ((service env).start x), ⟨rfl, Or.inr ⟨req, rfl, hroute, handle_run hroute⟩⟩,
        by simp⟩
    | error e =>
      refine ⟨none, ⟨req, e, rfl, hroute, ?_⟩, by simp⟩
      show (MediaController.handle env req).run = _
      unfold MediaController.handle
      rw [hroute]
      rfl

/-- The service alone shows as the service without its controller. -/
def apiSimulation (env : Env) : Simulation (service env) (api env faultless) where
  part w := w
  shows := ShowsAsCall
  start := showsAsCall_start
  act a _ := Or.inr ⟨a, rfl⟩
  step x' log c k o w h := by
    cases o with
    | none =>
      obtain ⟨req, e, -, -, hrest⟩ := h
      exact absurd hrest (by simp)
    | some t =>
      obtain ⟨x, tlog, rest⟩ := t
      obtain ⟨rfl, h⟩ := h
      obtain ⟨d, rfl, hthread⟩ : ∃ d : c.Reply → Prog Cmd Cmd.Reply (Except Err Reply),
          rest = .step c d ∧ ∀ r, ShowsAsCall ⟨x', tlog ++ [⟨c, r⟩], k r⟩
            (some ⟨x, tlog ++ [⟨c, r⟩], d r⟩) := by
        rcases h with ⟨hcall, hrest⟩ | ⟨req, hcall, hroute, hrest⟩
        · exact ⟨k, hrest.symm, fun r => ⟨rfl, Or.inl ⟨hcall, rfl⟩⟩⟩
        · cases rest with
          | pure a => exact absurd hrest (by simp)
          | step c' d =>
            obtain ⟨rfl, hk⟩ := Prog.step.inj hrest
            refine ⟨d, rfl, fun r => ⟨rfl, Or.inr ⟨req, hcall, hroute, ?_⟩⟩⟩
            exact congrFun (eq_of_heq hk) r
      have hstart (userId : String) : ShowsAsCall
          ((api env faultless).start (.call (.checkAndPublishQuotaAlert userId)))
          (some ((service env).start (.checkAndPublishQuotaAlert userId))) :=
        ⟨rfl, Or.inl ⟨rfl, rfl⟩⟩
      cases c with
      | spawnQuotaAlert userId =>
        refine .issues rfl [(.call (.checkAndPublishQuotaAlert userId),
          .checkAndPublishQuotaAlert userId)] rfl rfl (fun e he => ?_) (hthread _)
        obtain rfl := List.mem_singleton.mp he
        exact hstart userId
      | _ => exact .issues rfl [] rfl rfl (fun e he => absurd he List.not_mem_nil) (hthread _)

end Calls

end WhisprMedia
