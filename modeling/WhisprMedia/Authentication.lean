import WhisprMedia.HttpRefinement

/-! Who gets through the guard. A request enters the controller after four reads of the guard, and
each of them was answered at a moment of the run before the request gave a command to the service. -/
namespace WhisprMedia
open Awaiting MediaService

/-! The log of the guard -/

section Logs
variable {α β : Type} {req : HttpRequest} {log : List HttpEvent}

theorem truthy_eq_some {o : Option String} {s : String} :
    truthy o = some s ↔ o = some s ∧ s ≠ "" := by
  simp only [truthy, Option.filter_eq_some_iff, decide_eq_true_eq]

theorem follows_of_tell {c : HttpCmd} {l : List HttpEvent} {r : Except HttpErr c.Reply}
    (h : (tell c).run.Follows l (.pure r)) : ∃ v, l = [⟨.inr c, v⟩] ∧ r = .ok v := by
  cases h with
  | step h =>
    obtain ⟨rfl, hr⟩ := h.of_pure
    exact ⟨_, rfl, Prog.pure.inj hr⟩

/-- After a command of the layer, the rest. -/
theorem follows_of_tell_bind {c : HttpCmd} {f : c.Reply → Http β} {l : List HttpEvent}
    {r : Except HttpErr β} (h : (tell c >>= f).run.Follows l (.pure r)) :
    ∃ v l', l = ⟨.inr c, v⟩ :: l' ∧ (f v).run.Follows l' (.pure r) := by
  rcases ProgE.follows_of_bind h with ⟨e, he, -⟩ | ⟨v, l₁, l₂, rfl, hv, h₂⟩
  · obtain ⟨v, -, hv⟩ := follows_of_tell he
    exact absurd hv (by simp)
  · obtain ⟨v', rfl, hv'⟩ := follows_of_tell hv
    obtain rfl := Except.ok.inj hv'
    exact ⟨_, l₂, rfl, h₂⟩

/-- What the guard has been answered about a token. -/
def guardLog (token publicKeyPem : String) (payload : JwtPayload) (user : AuthUser) :
    List HttpEvent :=
  [⟨.inr .getPublicKeyPem, some publicKeyPem⟩,
    ⟨.inr (.verifyAsync token publicKeyPem), .ok payload⟩,
    ⟨.inr (.getRevocation (revokedKey user.jti)), .ok none⟩,
    ⟨.inr (.getRevocation (revokedDeviceKey user.deviceId)), .ok none⟩]

/-- The token of the request is that of the payload, and the log is the guard's. -/
def AdmittedBy (req : HttpRequest) (log : List HttpEvent) (publicKeyPem : String)
    (payload : JwtPayload) (user : AuthUser) : Prop :=
  AuthUser.ofPayload payload = some user ∧ ∃ token,
    JwtAuthGuard.extractBearerToken req.authorization = some token ∧ token ≠ "" ∧
      log = guardLog token publicKeyPem payload user

theorem checkRevocation_follows {user user' : AuthUser} {l : List HttpEvent}
    (h : (JwtAuthGuard.checkRevocation user).run.Follows l (.pure (.ok user'))) :
    user' = user ∧ l = [⟨.inr (.getRevocation (revokedKey user.jti)), .ok none⟩,
      ⟨.inr (.getRevocation (revokedDeviceKey user.deviceId)), .ok none⟩] := by
  obtain ⟨token, l₁, rfl, h₁⟩ := follows_of_tell_bind h
  obtain ⟨device, l₂, rfl, h₂⟩ := follows_of_tell_bind h₁
  split at h₂
  · obtain ⟨rfl, hr⟩ := h₂.of_pure
    exact ⟨Except.ok.inj (Prog.pure.inj hr), rfl⟩
  · cases h₂
  · cases h₂
  · cases h₂

theorem canActivate_follows {user : Option AuthUser} {l : List HttpEvent}
    (h : (JwtAuthGuard.canActivate false req.authorization).run.Follows l (.pure (.ok user))) :
    ∃ pem payload u, user = some u ∧ AdmittedBy req l pem payload u := by
  unfold JwtAuthGuard.canActivate at h
  rw [if_neg (by simp)] at h
  split at h
  · cases h
  · next token htoken =>
    obtain ⟨htoken, hne⟩ := truthy_eq_some.mp htoken
    rcases ProgE.follows_of_bind h with ⟨e, -, he⟩ | ⟨u, l₁, l₂, rfl, h₁, hpure⟩
    · exact absurd he (by simp)
    obtain ⟨rfl, hu⟩ := Prog.Follows.of_pure hpure
    obtain rfl := Except.ok.inj (Prog.pure.inj hu)
    obtain ⟨pem, l₂, rfl, h₂⟩ := follows_of_tell_bind h₁
    split at h₂
    · cases h₂
    · next publicKey hpem =>
      obtain ⟨rfl, -⟩ := truthy_eq_some.mp hpem
      obtain ⟨verified, l₃, rfl, h₃⟩ := follows_of_tell_bind h₂
      split at h₃
      · cases h₃
      · next payload =>
        split at h₃
        · cases h₃
        · next user hpayload =>
          obtain ⟨rfl, rfl⟩ := checkRevocation_follows h₃
          refine ⟨publicKey, payload, u, rfl, hpayload, token, htoken, hne, ?_⟩
          rw [List.append_nil]
          rfl

/-- The errors of the guard. -/
theorem canActivate_throws (isPublic : Bool) (authorization : Option String) :
    (JwtAuthGuard.canActivate isPublic authorization).Throws fun e =>
      e = .unauthorized ∨ ∃ message, e = .exception (.error message) := by
  have htell (c : HttpCmd) : (tell c).Throws fun e =>
      e = .unauthorized ∨ ∃ message, e = .exception (.error message) := by
    intro l e h
    obtain ⟨v, -, hv⟩ := follows_of_tell h
    exact absurd hv (by simp)
  unfold JwtAuthGuard.canActivate
  split
  · exact ProgE.throws_pure _
  · split
    · exact ProgE.throws_throw (Or.inl rfl)
    · refine ProgE.Throws.bind ((htell _).bind fun pem => ?_) fun _ => ProgE.throws_pure _
      split
      · exact ProgE.throws_throw (Or.inl rfl)
      · refine (htell _).bind fun verified => ?_
        split
        · exact ProgE.throws_throw (Or.inl rfl)
        · split
          · exact ProgE.throws_throw (Or.inl rfl)
          · refine (htell _).bind fun token => (htell _).bind fun device => ?_
            split
            · exact ProgE.throws_pure _
            · exact ProgE.throws_throw (Or.inr ⟨_, rfl⟩)
            · exact ProgE.throws_throw (Or.inr ⟨_, rfl⟩)
            · exact ProgE.throws_throw (Or.inl rfl)

end Logs

/-! Past the guard -/

/-- A command that a controller issues. -/
def OfController : Cmd ⊕ HttpCmd → Prop
  | .inr (.writeAccessLog _ _ _ _ _) => True
  | .inr (.publish _) => True
  | .inr (.inc _) => True
  | .inr _ => False
  | .inl _ => True

section Controller
variable {α β : Type} {env : Env}

theorem within_issues (x : Svc α) : (within x).Issues OfController := by
  refine Prog.Issues.bind ?_ fun r => trivial
  generalize x.run = p
  induction p with
  | pure a => trivial
  | step c k ih => exact ⟨trivial, ih⟩

theorem within_bind_issues {x : Svc β} {f : β → Http α} (h : ∀ b, (f b).Issues OfController) :
    (within x >>= f).Issues OfController := (within_issues x).bind h

theorem tell_bind_issues {c : HttpCmd} {f : c.Reply → Http α} (hc : OfController (.inr c))
    (h : ∀ r, (f r).Issues OfController) : (tell c >>= f).Issues OfController :=
  ProgE.Issues.bind ⟨hc, fun _ => trivial⟩ h

theorem httpUploadHeld_issues (ownerId : String) (file : File) (context : MediaContext)
    (thumbnailFile : Option File) (sharedWith : Option (List String)) :
    (HttpService.uploadHeld env ownerId file context thumbnailFile sharedWith).Issues
      OfController := by
  refine within_bind_issues fun _ => within_bind_issues fun _ => within_bind_issues fun _ =>
    within_bind_issues fun duplicate => ?_
  cases duplicate with
  | some existing => exact within_bind_issues fun _ => within_issues _
  | none =>
    exact within_bind_issues fun media => within_bind_issues fun _ => within_bind_issues fun _ =>
      tell_bind_issues trivial fun _ => tell_bind_issues trivial fun _ => within_issues _

theorem handle_issues (ipAddress userAgent : Option String) (x : Call) :
    (HttpService.handle env ipAddress userAgent x).Issues OfController := by
  cases x with
  | upload ownerId file context thumbnailFile sharedWith =>
    exact ProgE.Issues.map (within_bind_issues fun _ =>
      (httpUploadHeld_issues ownerId file context thumbnailFile sharedWith).ensuring (within_issues _))
  | delete id requesterId =>
    exact ProgE.Issues.map (within_bind_issues fun media => within_bind_issues fun _ =>
      within_bind_issues fun _ => within_bind_issues fun _ => tell_bind_issues trivial fun _ =>
        tell_bind_issues trivial fun _ => ⟨trivial, fun _ => trivial⟩)
  | getBlob id requesterId =>
    exact ProgE.Issues.map (within_bind_issues fun media => within_bind_issues fun dto =>
      tell_bind_issues trivial fun _ => tell_bind_issues trivial fun _ => ProgE.issues_pure _)
  | getThumbnail id requesterId =>
    refine ProgE.Issues.map (within_bind_issues fun media => ?_)
    cases truthy media.thumbnailPath with
    | none => exact ProgE.issues_pure _
    | some path =>
      exact within_bind_issues fun url => within_bind_issues fun now =>
        tell_bind_issues trivial fun _ => tell_bind_issues trivial fun _ => ProgE.issues_pure _
  | streamBlob id requesterId =>
    exact ProgE.Issues.map (within_bind_issues fun media => within_bind_issues fun body =>
      tell_bind_issues trivial fun _ => ProgE.issues_pure _)
  | streamThumbnail id requesterId =>
    refine ProgE.Issues.map (within_bind_issues fun media => ?_)
    cases truthy media.thumbnailPath with
    | none => exact ProgE.issues_pure _
    | some path =>
      exact within_bind_issues fun body => tell_bind_issues trivial fun _ => ProgE.issues_pure _
  | _ => exact within_issues _

theorem respond_issues (req : HttpRequest) (request : Request) :
    (HttpService.respond env req request).Issues OfController :=
  within_bind_issues fun _ => (handle_issues _ _ _).bind fun _ => within_issues _

/-- When a request issues a command: the guard first, which verifies before it reads anything else of
the token, then the entry for the user of the token, and then the controller. -/
def InOrder (req : HttpRequest) (log : List HttpEvent) : Cmd ⊕ HttpCmd → Prop
  | .inr .getPublicKeyPem => True
  | .inr (.getRevocation _) => True
  | .inr (.verifyAsync _ _) => log.length = 1
  | .inr (.enter request) => ∃ pem payload user, AdmittedBy req log pem payload user ∧
      request = ⟨user.userId, req.endpoint⟩
  | _ => ∃ e ∈ log, ∃ request, e.1 = Sum.inr (HttpCmd.enter request)

theorem inOrder_of_entered {req : HttpRequest} {log : List HttpEvent} {c : Cmd ⊕ HttpCmd}
    (hc : OfController c) (h : ∃ e ∈ log, ∃ request, e.1 = Sum.inr (HttpCmd.enter request)) :
    InOrder req log c := by
  rcases c with c | c
  · exact h
  · cases c with
    | writeAccessLog | publish | inc => exact h
    | _ => exact hc.elim

/-- The entry stays in the log, whatever the controller adds to it. -/
theorem controller_inOrder {req : HttpRequest} {x : Http α} {log : List HttpEvent}
    (hx : x.Issues OfController)
    (hlog : ∃ e ∈ log, ∃ request, e.1 = Sum.inr (HttpCmd.enter request)) :
    x.IssuesAfter (InOrder req) log := by
  unfold ProgE.IssuesAfter
  unfold ProgE.Issues at hx
  generalize x.run = p at hx
  induction p generalizing log with
  | pure a => trivial
  | step c k ih =>
    refine ⟨inOrder_of_entered hx.1 hlog, fun r => ih r ?_ (hx.2 r)⟩
    obtain ⟨e, he, hcmd⟩ := hlog
    exact ⟨e, List.mem_append_left _ he, hcmd⟩

theorem canActivate_inOrder (req : HttpRequest) :
    (JwtAuthGuard.canActivate false req.authorization).IssuesAfter (InOrder req) [] := by
  unfold JwtAuthGuard.canActivate
  rw [if_neg (by simp)]
  split
  · exact ProgE.issuesAfter_throw _
  · refine ProgE.IssuesAfter.map (ProgE.IssuesAfter.bind ⟨trivial, fun _ => trivial⟩ fun pem l hl => ?_)
    obtain ⟨_, rfl, -⟩ := follows_of_tell hl
    split
    · exact ProgE.issuesAfter_throw _
    · refine ProgE.IssuesAfter.bind ⟨rfl, fun _ => trivial⟩ fun verified _ _ => ?_
      split
      · exact ProgE.issuesAfter_throw _
      · split
        · exact ProgE.issuesAfter_throw _
        · refine ProgE.IssuesAfter.bind ⟨trivial, fun _ => trivial⟩ fun _ _ _ => ?_
          refine ProgE.IssuesAfter.bind ⟨trivial, fun _ => trivial⟩ fun _ _ _ => ?_
          split
          · exact ProgE.issuesAfter_pure _
          · exact ProgE.issuesAfter_throw _
          · exact ProgE.issuesAfter_throw _
          · exact ProgE.issuesAfter_throw _

theorem serve_inOrder (env : Env) (req : HttpRequest) :
    (HttpService.serve env req).IssuesAfter (InOrder req) [] := by
  refine ProgE.IssuesAfter.bind (canActivate_inOrder req) fun user l hl => ?_
  obtain ⟨pem, payload, u, rfl, hadmitted⟩ := canActivate_follows hl
  refine ProgE.IssuesAfter.bind ⟨⟨pem, payload, u, hadmitted, rfl⟩, fun _ => trivial⟩ fun _ l' hl' => ?_
  obtain ⟨_, rfl, -⟩ := follows_of_tell hl'
  exact controller_inOrder (respond_issues req _)
    ⟨_, List.mem_append_right _ List.mem_cons_self, _, rfl⟩

end Controller

/-! Runs -/

section Runs
variable {KeyObject : Type} {env : Env} {http : HttpEnv KeyObject}
  {fault : Cmd → World → Option Fault} {p q : HttpPool KeyObject} {i : ℕ} {t : HttpThread}
  {ok : HttpPool KeyObject → Label HttpCall HttpAct → Prop}

/-- Commands change neither the key nor the revocations. -/
theorem exec_keys (c : Cmd ⊕ HttpCmd) (w : HttpWorld KeyObject) :
    ((httpService env http fault).exec c w).2.jwks = w.jwks ∧
      ((httpService env http fault).exec c w).2.revoked = w.revoked := by
  rcases c with c | c
  · exact ⟨rfl, rfl⟩
  · cases c <;> exact ⟨rfl, rfl⟩

/-- A key that was read as absent was not there. -/
theorem absent_of_read {key : String} {w : HttpWorld KeyObject}
    (h : (http.exec (.getRevocation key) w).1 = .ok none) : w.revoked key = none := by
  simp only [HttpEnv.exec] at h
  split at h
  · exact absurd h (by simp)
  · exact Except.ok.inj h

theorem jwks_later (h : (httpService env http fault).Runs ok p q) :
    JwksService.Later http.toJwksEnv p.world.jwks q.world.jwks := by
  induction h with
  | refl => exact .refl
  | tail _ _ hn ih =>
    rcases System.next_cases hn with ⟨x, -, rfl⟩ | ⟨a, -, rfl⟩ |
      ⟨i, pre, post, x, log, c, k, -, -, -, rfl⟩
    · exact ih
    · cases a with
      | jwks e =>
        show JwksService.Later _ _ ((JwksService.next _ _ e).getD _)
        cases hnext : JwksService.next http.toJwksEnv _ e with
        | none => exact ih
        | some s => exact ih.tail ⟨e, hnext⟩
      | _ => exact ih
    · rw [(exec_keys c _).1]
      exact ih

/-- A key that has been loaded is the key from then on. -/
theorem key_stays (hp : (httpService env http fault).Runs ok ⟨.start http, []⟩ p)
    (hq : (httpService env http fault).Runs ok p q) {key : KeyObject}
    (hkey : p.world.jwks.publicKey = some key) : q.world.jwks.publicKey = some key :=
  ((JwksService.keeps_later (JwksService.keeps_later JwksService.oneChain_init
    (jwks_later hp)).chain (jwks_later hq)).loaded key hkey).1

/-- The log of a request that has entered the controller. -/
theorem entered_log (hq : (httpService env http fault).Runs ok ⟨.start http, []⟩ q)
    (ht : q.threads[i]? = some t) {req : HttpRequest} (hcall : t.call = .request req)
    {request : Request} {e : HttpEvent} (he : e ∈ t.log) (hcmd : e.1 = .inr (.enter request)) :
    ∃ pem payload user log rest, t.log = log ++ e :: rest ∧ AdmittedBy req log pem payload user ∧
      request = ⟨user.userId, req.endpoint⟩ := by
  have hfollows := hq.follows (fun t ht => absurd ht List.not_mem_nil) t
    (List.mem_of_getElem? ht)
  rw [hcall] at hfollows
  obtain ⟨log, rest, hlog⟩ := List.append_of_mem he
  rw [hlog] at hfollows
  obtain ⟨pem, payload, user, hadmitted, hrequest⟩ :=
    by simpa only [hcmd, InOrder] using (serve_inOrder env req).of_split hfollows
  exact ⟨pem, payload, user, log, rest, hlog, hadmitted, hrequest⟩

/-- The thread has issued the command before it gave one to the service, at a moment of the run at
which the world was so, and this world has answered it. -/
def AtGuard (env : Env) (http : HttpEnv KeyObject) (fault : Cmd → World → Option Fault)
    (q : HttpPool KeyObject) (i : ℕ) (c : HttpCmd) (P : HttpWorld KeyObject → Prop) : Prop :=
  ∃ p p' t t', (httpService env http fault).Runs (fun _ _ => True) ⟨.start http, []⟩ p ∧
    (httpService env http fault).Runs (fun _ _ => True) p q ∧
    (httpService env http fault).Runs (fun _ _ => True) p' q ∧
    p.threads[i]? = some t ∧ innerLog t.log = [] ∧ q.threads[i]? = some t' ∧
    t.log ++ [⟨.inr c, (http.exec c p.world).1⟩] <+: t'.log ∧
    p'.world = (http.exec c p.world).2 ∧ P p.world

/-- The moment of an event of the guard. -/
theorem atGuard_of_split
    (hq : (httpService env http fault).Runs (fun _ _ => True) ⟨.start http, []⟩ q)
    (ht : q.threads[i]? = some t) (l₁ : List HttpEvent) {l₂ : List HttpEvent} {c : HttpCmd}
    {r : c.Reply} (hlog : t.log = l₁ ++ ⟨.inr c, r⟩ :: l₂) (hinner : innerLog l₁ = []) :
    AtGuard env http fault q i c fun w => (http.exec c w).1 = r := by
  rcases hq.moment_between ht hlog with
    ⟨t₀, h₀, -⟩ | ⟨p, p', t₁, hp, hpq, hp'q, h₁, -, rfl, hexec⟩
  · exact absurd h₀ (by simp)
  · have hans : (http.exec c p.world).1 = r := congrArg Prod.fst hexec
    have hworld : (http.exec c p.world).2 = p'.world := congrArg Prod.snd hexec
    refine ⟨p, p', t₁, t, hp, hpq, hp'q, h₁, hinner, ht, ⟨l₂, ?_⟩, hworld.symm, hans⟩
    rw [hlog, hans, List.append_assoc]
    rfl

theorem AtGuard.mono {c : HttpCmd} {P Q : HttpWorld KeyObject → Prop}
    (h : AtGuard env http fault q i c P) (hPQ : ∀ w, P w → Q w) : AtGuard env http fault q i c Q := by
  obtain ⟨p, p', t, t', hp, hpq, hp'q, hat, hinner, ht', hlog, hworld, hw⟩ := h
  exact ⟨p, p', t, t', hp, hpq, hp'q, hat, hinner, ht', hlog, hworld, hPQ _ hw⟩

theorem revoked_act {key : String} {a : HttpAct} {w : HttpWorld KeyObject}
    (ha : a ≠ .dropRevocation key) (hw : w.revoked key ≠ none) :
    (a.apply http w).revoked key ≠ none := by
  cases a with
  | setRevocation key' value =>
    simp only [HttpAct.apply]
    by_cases heq : key = key'
    · rw [heq, Function.update_self]
      simp
    · rwa [Function.update_of_ne heq]
  | dropRevocation key' =>
    have hne : key ≠ key' := fun heq => ha (heq ▸ rfl)
    simp only [HttpAct.apply]
    rwa [Function.update_of_ne hne]
  | _ => exact hw

/-- A revocation stays in the cache as long as it is not dropped. -/
theorem revoked_stays {key : String}
    (hr : (httpService env http fault).Runs (fun _ l => l ≠ .act (.dropRevocation key)) p q)
    (hp : p.world.revoked key ≠ none) : q.world.revoked key ≠ none := by
  induction hr with
  | refl => exact hp
  | tail _ hok hn ih =>
    rcases System.next_cases hn with ⟨x, -, rfl⟩ | ⟨a, rfl, rfl⟩ |
      ⟨i, pre, post, x, log, c, k, -, -, -, rfl⟩
    · exact ih
    · exact revoked_act (fun h => hok (congrArg Label.act h)) ih
    · rw [(exec_keys c _).2]
      exact ih

/-- A request that has not entered the controller has given the service no command, and it ends with
an error of the guard. -/
theorem refused_of_not_entered
    (hq : (httpService env http fault).Runs ok ⟨.start http, []⟩ q) (ht : q.threads[i]? = some t)
    {req : HttpRequest} (hcall : t.call = .request req)
    (h : ∀ e ∈ t.log, ∀ request, e.1 ≠ Sum.inr (HttpCmd.enter request)) :
    innerLog t.log = [] ∧ ∀ a, t.outcome = some a → a = .error .unauthorized ∨
      ∃ message, a = .error (.exception (.error message)) := by
  have hfollows := hq.follows (fun t ht => absurd ht List.not_mem_nil) t
    (List.mem_of_getElem? ht)
  rw [hcall] at hfollows
  refine ⟨List.eq_nil_iff_forall_not_mem.mpr fun ⟨c, r⟩ hc => ?_, fun a ha => ?_⟩
  · obtain ⟨l₁, l₂, hlog⟩ := List.append_of_mem (mem_innerLog.mp hc)
    rw [hlog] at hfollows
    obtain ⟨e, he, request, hcmd⟩ := (serve_inOrder env req).of_split hfollows
    exact h e (by rw [hlog]; exact List.mem_append_left _ he) request hcmd
  · rw [Thread.rest_of_outcome ha] at hfollows
    rcases ProgE.follows_of_bind hfollows with ⟨e, he, rfl⟩ | ⟨user, l₁, l₂, hlog, -, h₂⟩
    · rcases canActivate_throws _ _ _ _ he with rfl | ⟨message, rfl⟩
      · exact Or.inl rfl
      · exact Or.inr ⟨message, rfl⟩
    · obtain ⟨v, l₃, rfl, -⟩ := follows_of_tell_bind h₂
      exact absurd rfl (h _ (hlog ▸ List.mem_append_right _ List.mem_cons_self) _)

end Runs

/-- A request that has entered the controller did so for the user of its token. Under the key that
the service has loaded the token was valid when the guard verified it, and neither it nor its device
was revoked when the guard read their entries, all before the first command to the service. -/
theorem entered_requests_verified {KeyObject : Type} (env : Env) (http : HttpEnv KeyObject)
    (fault : Cmd → World → Option Fault) (q : HttpPool KeyObject)
    (hq : (httpService env http fault).Runs (fun _ _ => True) ⟨.start http, []⟩ q) (i : ℕ)
    (t : HttpThread) (ht : q.threads[i]? = some t) (req : HttpRequest)
    (hcall : t.call = .request req) (request : Request) (e : HttpEvent) (he : e ∈ t.log)
    (hcmd : e.1 = .inr (.enter request)) :
    ∃ token key payload user,
      JwtAuthGuard.extractBearerToken req.authorization = some token ∧
      q.world.jwks.publicKey = some key ∧ AuthUser.ofPayload payload = some user ∧
      request = ⟨user.userId, req.endpoint⟩ ∧
      (AtGuard env http fault q i (.verifyAsync token (http.exportPem key)) fun w =>
        http.verifyAsync w.service.now (http.exportPem key) token = .ok payload) ∧
      (AtGuard env http fault q i (.getRevocation (revokedKey user.jti)) fun w =>
        w.revoked (revokedKey user.jti) = none) ∧
      (AtGuard env http fault q i (.getRevocation (revokedDeviceKey user.deviceId)) fun w =>
        w.revoked (revokedDeviceKey user.deviceId) = none) := by
  obtain ⟨pem, payload, user, log, rest, hlog, ⟨huser, token, htoken, -, rfl⟩, hrequest⟩ :=
    entered_log hq ht hcall he hcmd
  -- the key that was exported is still the key
  obtain ⟨p, -, -, -, hp, hpq, -, -, -, -, -, -, hpem⟩ := atGuard_of_split hq ht [] hlog rfl
  obtain ⟨key, hkey, rfl⟩ := Option.map_eq_some_iff.mp hpem
  refine ⟨token, key, payload, user, htoken, key_stays hp hpq hkey, huser, hrequest, ?_, ?_, ?_⟩
  · exact atGuard_of_split hq ht [_] hlog rfl
  · exact (atGuard_of_split hq ht [_, _] hlog rfl).mono fun w hw => absent_of_read hw
  · exact (atGuard_of_split hq ht [_, _, _] hlog rfl).mono fun w hw => absent_of_read hw

/-- Two users upload, each with a token of his own. -/
def twoUploads : List (Label HttpCall HttpAct) :=
  keyLoaded ++ servedAlone 0 27 (bearing "t7" (.upload exampleUploadDto)) ++
    servedAlone 2 27 (bearing "t8" (.upload exampleUploadDto))

theorem entered_requests_verified_upload : ∃ q t, (httpService exampleEnv exampleHttp faultless).play
      (fun _ _ => True) ⟨.start exampleHttp, []⟩ twoUploads = some q ∧ q.threads[2]? = some t ∧
    t.call = .request (bearing "t8" (.upload exampleUploadDto)) ∧
    ∃ token key payload user,
      JwtAuthGuard.extractBearerToken (some "Bearer t8") = some token ∧
      q.world.jwks.publicKey = some key ∧ AuthUser.ofPayload payload = some user ∧
      ⟨exampleId 8, .upload exampleUploadDto⟩ =
        (⟨user.userId, .upload exampleUploadDto⟩ : Request) ∧
      (AtGuard exampleEnv exampleHttp faultless q 2
        (.verifyAsync token (exampleHttp.exportPem key)) fun w => exampleHttp.verifyAsync
          w.service.now (exampleHttp.exportPem key) token = .ok payload) ∧
      (AtGuard exampleEnv exampleHttp faultless q 2 (.getRevocation (revokedKey user.jti)) fun w =>
        w.revoked (revokedKey user.jti) = none) ∧
      (AtGuard exampleEnv exampleHttp faultless q 2
        (.getRevocation (revokedDeviceKey user.deviceId)) fun w =>
          w.revoked (revokedDeviceKey user.deviceId) = none) := by
  have hplay : (((httpService exampleEnv exampleHttp faultless).play (fun _ _ => True)
      ⟨.start exampleHttp, []⟩ twoUploads).bind fun q => (q.threads[2]?.filter fun t =>
        t.call = .request (bearing "t8" (.upload exampleUploadDto)) ∧ ∃ e ∈ t.log,
          e.1 = .inr (.enter ⟨exampleId 8, .upload exampleUploadDto⟩))).isSome = true := by
    decide +kernel
  obtain ⟨t, ht⟩ := Option.isSome_iff_exists.mp hplay
  obtain ⟨q, hq, ht⟩ := Option.bind_eq_some_iff.mp ht
  simp only [Option.filter_eq_some_iff, decide_eq_true_eq] at ht
  obtain ⟨ht, hcall, e, he, hcmd⟩ := ht
  exact ⟨q, t, hq, ht, hcall, entered_requests_verified exampleEnv exampleHttp faultless q
    (System.runs_of_play hq) 2 t ht _ hcall _ e he hcmd⟩

/-- Once a token or its device is revoked, no request that has yet to read it gets to the service with
that token: it gives the service no command, and ends with an error of the guard. -/
theorem revocation_is_final {KeyObject : Type} (env : Env) (http : HttpEnv KeyObject)
    (fault : Cmd → World → Option Fault) (p q : HttpPool KeyObject) (key : String)
    (hp : (httpService env http fault).Runs (fun _ _ => True) ⟨.start http, []⟩ p)
    (hrevoked : p.world.revoked key ≠ none)
    (hr : (httpService env http fault).Runs (fun _ l => l ≠ .act (.dropRevocation key)) p q)
    (i : ℕ) (t : HttpThread) (ht : q.threads[i]? = some t) (req : HttpRequest)
    (hcall : t.call = .request req)
    (hunread : ∀ t₀, p.threads[i]? = some t₀ → ∀ e ∈ t₀.log, e.1 ≠ .inr (.getRevocation key))
    (token pem : String) (payload : JwtPayload) (user : AuthUser)
    (hverified : (⟨.inr (.verifyAsync token pem), .ok payload⟩ : HttpEvent) ∈ t.log)
    (huser : AuthUser.ofPayload payload = some user)
    (hkey : key = revokedKey user.jti ∨ key = revokedDeviceKey user.deviceId) :
    innerLog t.log = [] ∧ ∀ a, t.outcome = some a → a = .error .unauthorized ∨
      ∃ message, a = .error (.exception (.error message)) := by
  have hq := hp.trans (hr.mono fun _ _ _ => trivial)
  refine refused_of_not_entered hq ht hcall fun e he request hcmd => ?_
  obtain ⟨pem', payload', user', log, rest, hlog, ⟨huser', token', -, -, rfl⟩, -⟩ :=
    entered_log hq ht hcall he hcmd
  -- the token was verified once, so the guard has admitted its user
  have hsame : payload' = payload := by
    obtain ⟨l₁, l₂, hsplit⟩ := List.append_of_mem hverified
    have hfollows := hq.follows (fun t ht => absurd ht List.not_mem_nil) t
      (List.mem_of_getElem? ht)
    rw [hcall, hsplit] at hfollows
    have hlength : l₁.length = 1 := (serve_inOrder env req).of_split hfollows
    have hat : t.log[1]? = some ⟨.inr (.verifyAsync token pem), .ok payload⟩ := by
      rw [hsplit, List.getElem?_append_right (by omega), hlength]
      rfl
    rw [hlog] at hat
    cases Option.some.inj hat
    rfl
  obtain rfl := hsame
  obtain rfl := Option.some.inj (huser'.symm.trans huser)
  have hread : ∃ l₁ l₂, t.log = l₁ ++ ⟨.inr (.getRevocation key), .ok none⟩ :: l₂ := by
    rcases hkey with rfl | rfl
    · exact ⟨[_, _], _, hlog⟩
    · exact ⟨[_, _, _], _, hlog⟩
  obtain ⟨l₁, l₂, hsplit⟩ := hread
  -- it was read as absent after the revocation
  rcases hr.moment_between ht hsplit with ⟨t₀, h₀, hmem⟩ | ⟨p₁, _, _, hp₁, -, -, -, -, -, hans⟩
  · exact hunread t₀ h₀ _ hmem rfl
  · exact revoked_stays hp₁ hrevoked (absent_of_read (congrArg Prod.fst hans))

instance (key : String) (l : Label HttpCall HttpAct) :
    Decidable (l ≠ .act (.dropRevocation key)) :=
  match l with
  | .act (.dropRevocation k) => decidable_of_iff (k ≠ key) (by simp)
  | .act (.setRevocation _ _) => isTrue (by simp)
  | .act (.service _) => isTrue (by simp)
  | .act (.jwks _) => isTrue (by simp)
  | .call _ => isTrue (by simp)
  | .step _ => isTrue (by simp)

/-- The payload of the user 7 was verified. -/
def verifiesExample : HttpEvent → Bool
  | ⟨.inr (.verifyAsync "t7" "PEM AQ"), .ok payload⟩ =>
    decide (payload = ⟨some (exampleId 7), some "j7", some "d7", none⟩)
  | _ => false

/-- A token is used for an upload, then revoked, and then used again. -/
theorem revocation_is_final_second_use : ∃ p q t,
    (httpService exampleEnv exampleHttp faultless).play (fun _ _ => True) ⟨.start exampleHttp, []⟩
      (keyLoaded ++ servedAlone 0 27 (bearing "t7" (.upload exampleUploadDto)) ++
        [.act (.setRevocation "revoked:j7" "1")]) = some p ∧
    (httpService exampleEnv exampleHttp faultless).play
      (fun _ l => l ≠ .act (.dropRevocation "revoked:j7")) p
      (servedAlone 2 4 (bearing "t7" (.delete (exampleId 1)))) = some q ∧
    q.threads[2]? = some t ∧ t.outcome.isSome = true ∧
    innerLog t.log = [] ∧ ∀ a, t.outcome = some a → a = .error .unauthorized ∨
      ∃ message, a = .error (.exception (.error message)) := by
  have hplay : ((((httpService exampleEnv exampleHttp faultless).play (fun _ _ => True)
      ⟨.start exampleHttp, []⟩ (keyLoaded ++
        servedAlone 0 27 (bearing "t7" (.upload exampleUploadDto)) ++
          [.act (.setRevocation "revoked:j7" "1")])).filter fun p =>
            p.world.revoked "revoked:j7" ≠ none ∧ p.threads.length = 2).bind fun p =>
      ((httpService exampleEnv exampleHttp faultless).play
        (fun _ l => l ≠ .act (.dropRevocation "revoked:j7")) p
        (servedAlone 2 4 (bearing "t7" (.delete (exampleId 1))))).bind fun q =>
          q.threads[2]?.filter fun t =>
            t.call = .request (bearing "t7" (.delete (exampleId 1))) ∧ t.outcome.isSome = true ∧
              ∃ e ∈ t.log, verifiesExample e = true).isSome = true := by
    decide +kernel
  obtain ⟨t, ht⟩ := Option.isSome_iff_exists.mp hplay
  obtain ⟨p, hp, ht⟩ := Option.bind_eq_some_iff.mp ht
  obtain ⟨q, hq, ht⟩ := Option.bind_eq_some_iff.mp ht
  simp only [Option.filter_eq_some_iff, decide_eq_true_eq] at hp ht
  obtain ⟨hp, hrevoked, hlength⟩ := hp
  obtain ⟨ht, hcall, hdone, e, he, hverifies⟩ := ht
  have hverified : e = ⟨.inr (.verifyAsync "t7" "PEM AQ"),
      .ok ⟨some (exampleId 7), some "j7", some "d7", none⟩⟩ := by
    unfold verifiesExample at hverifies
    split at hverifies
    · rw [of_decide_eq_true hverifies]
    · exact absurd hverifies (by simp)
  refine ⟨p, q, t, hp, hq, ht, hdone, revocation_is_final exampleEnv exampleHttp faultless p q
    "revoked:j7" (System.runs_of_play hp) hrevoked (System.runs_of_play hq) 2 t ht _ hcall
    (fun t₀ h₀ => ?_) "t7" "PEM AQ" _ ⟨exampleId 7, "j7", "d7", none⟩ (hverified ▸ he) rfl (Or.inl rfl)⟩
  have hlt := (List.getElem?_eq_some_iff.mp h₀).1
  omega

end WhisprMedia
