import WhisprMedia.MediaEvents

/-! What is left behind of the requests that have been answered: a row of the access log for each read
that was answered with a URL or a body and for each deletion, and the counters. -/
namespace WhisprMedia
open Awaiting Keyed MediaService

/-! What a request tells -/

/-- The commands of the HTTP layer in a log. -/
def told (log : List HttpEvent) : List HttpCmd :=
  log.filterMap fun e => match e.1 with
    | .inl _ => none
    | .inr c => some c

/-- A row of the access log without its id and its time. -/
structure Access where
  mediaId : String
  accessorId : Option String
  accessType : String
  ipAddress : Option String
  userAgent : Option String
  deriving DecidableEq

def MediaAccessLog.access (row : MediaAccessLog) : Access :=
  ⟨row.mediaId, row.accessorId, row.accessType, row.ipAddress, row.userAgent⟩

def HttpCmd.accesses : HttpCmd → List Access
  | .writeAccessLog mediaId accessorId accessType ipAddress userAgent =>
    [⟨mediaId, some accessorId, accessType, ipAddress, userAgent.map (sliceTo 512)⟩]
  | _ => []

def HttpCmd.events : HttpCmd → List MediaEvent
  | .publish event => [event]
  | _ => []

def HttpCmd.counts : HttpCmd → List MetricsCounter
  | .inc counter => [counter]
  | _ => []

section Told
variable {l l' : List HttpEvent}

theorem told_append : told (l ++ l') = told l ++ told l' := List.filterMap_append

theorem told_lift (l : ServiceLog) : told (l.map lift) = [] := by
  induction l with
  | nil => rfl
  | cons e l ih => exact ih

theorem told_cons {c : HttpCmd} {r : c.Reply} : told (⟨.inr c, r⟩ :: l) = c :: told l := rfl

end Told

/-- What the calls of the controller tell, once they have ended: nothing if they have failed, and
otherwise what was handed out of which media. -/
inductive Tells (ipAddress userAgent : Option String) (log : List HttpEvent) :
    Call → Except HttpErr Reply → List HttpCmd → Prop
  | failed {x : Call} (e : HttpErr) : Tells ipAddress userAgent log x (.error e) []
  | quiet {x : Call} {reply : Reply} (hx : ∀ id user, x ≠ .getBlob id user ∧ x ≠ .streamBlob id user ∧
      x ≠ .delete id user) (hurl : ∀ dto, reply ≠ .thumbnailUrl dto)
      (hfile : ∀ file, reply ≠ .thumbnail (some file)) (hblob : ∀ dto, reply ≠ .blobUrl dto)
      (hnew : ∀ dto, reply ≠ .uploaded dto) : Tells ipAddress userAgent log x (.ok reply) []
  | reused {ownerId : String} {file : File} {context : MediaContext} {thumbnailFile : Option File}
      {sharedWith : Option (List String)} (dto : UploadMediaResponseDto) :
      Tells ipAddress userAgent log (.upload ownerId file context thumbnailFile sharedWith)
        (.ok (.uploaded dto)) []
  | noThumbnail {id user : String} :
      Tells ipAddress userAgent log (.getThumbnail id user) (.ok (.thumbnailUrl ⟨none, none⟩)) []
  | uploaded {ownerId : String} {file : File} {context : MediaContext} {thumbnailFile : Option File}
      {sharedWith : Option (List String)} {a : Except HttpErr Reply} (media : Media)
      (ha : ∀ reply, a = .ok reply → ∃ dto, reply = .uploaded dto) :
      Tells ipAddress userAgent log (.upload ownerId file context thumbnailFile sharedWith) a
        [.inc .uploadsTotal, .publish (.uploaded (uploadedPayload media))]
  | deleted {id user : String} {media : Media}
      (found : (⟨.inl (.findMedia user id), .ok (some media)⟩ : HttpEvent) ∈ log) :
      Tells ipAddress userAgent log (.delete id user) (.ok .done)
        [.writeAccessLog media.id user "delete" ipAddress userAgent,
          .publish (.deleted (deletedPayload media)), .inc .deletesTotal]
  | blobUrl {id user : String} {media : Media} {dto : BlobUrlResponseDto}
      (found : (⟨.inl (.findMedia user id), .ok (some media)⟩ : HttpEvent) ∈ log) :
      Tells ipAddress userAgent log (.getBlob id user) (.ok (.blobUrl dto))
        [.writeAccessLog media.id user "blob" ipAddress userAgent, .inc .downloadsTotal]
  | thumbnailUrl {id user : String} {media : Media} {url : SignedUrl} {expiresAt : Option Int}
      (found : (⟨.inl (.findMedia user id), .ok (some media)⟩ : HttpEvent) ∈ log) :
      Tells ipAddress userAgent log (.getThumbnail id user) (.ok (.thumbnailUrl ⟨some url, expiresAt⟩))
        [.writeAccessLog media.id user "thumbnail" ipAddress userAgent, .inc .downloadsTotal]
  | blob {id user : String} {media : Media} {file : StreamableFile}
      (found : (⟨.inl (.findMedia user id), .ok (some media)⟩ : HttpEvent) ∈ log) :
      Tells ipAddress userAgent log (.streamBlob id user) (.ok (.blob file))
        [.writeAccessLog media.id user "blob" ipAddress userAgent]
  | thumbnail {id user : String} {media : Media} {file : StreamableFile}
      (found : (⟨.inl (.findMedia user id), .ok (some media)⟩ : HttpEvent) ∈ log) :
      Tells ipAddress userAgent log (.streamThumbnail id user) (.ok (.thumbnail (some file)))
        [.writeAccessLog media.id user "thumbnail" ipAddress userAgent]

section Programs
variable {α β : Type} {env : Env} {l : List HttpEvent}

/-- A part of the service tells nothing: it has failed, or it has returned and the rest goes on. -/
theorem told_within_bind {x : Svc β} {f : β → Http α} {r : Except HttpErr α}
    {P : Except HttpErr α → List HttpCmd → Prop} (h : (within x >>= f).run.Follows l (.pure r))
    (hfail : ∀ e, P (.error e) []) (hrest : ∀ b l₁ l₂, l = l₁.map lift ++ l₂ →
      x.run.Follows l₁ (.pure (.ok b)) → (f b).run.Follows l₂ (.pure r) → P r (told l₂)) :
    P r (told l) := by
  rcases ProgE.follows_of_bind h with ⟨e, h₁, rfl⟩ | ⟨b, l₁, l₂, rfl, h₁, h₂⟩
  · obtain ⟨l', _, rfl, -, -⟩ := ProgE.follows_of_inner h₁
    rw [told_lift]
    exact hfail e
  · obtain ⟨l', rfl, h'⟩ := ProgE.returned_of_inner h₁
    rw [told_append, told_lift, List.nil_append]
    exact hrest b l' l₂ rfl h' h₂

theorem told_tell_bind {c : HttpCmd} {f : c.Reply → Http α} {r : Except HttpErr α}
    (h : (tell c >>= f).run.Follows l (.pure r)) :
    ∃ v l', told l = c :: told l' ∧ (f v).run.Follows l' (.pure r) := by
  obtain ⟨v, l', rfl, h'⟩ := follows_of_tell_bind h
  exact ⟨v, l', told_cons, h'⟩

theorem told_within {x : Svc α} {r : Except HttpErr α} (h : (within x).run.Follows l (.pure r)) :
    told l = [] := by
  obtain ⟨l', _, rfl, -, -⟩ := ProgE.follows_of_inner h
  exact told_lift l'

/-- What an upload tells: nothing, or of the row that it has inserted. -/
def UploadTold (told : List HttpCmd) : Prop :=
  told = [] ∨ ∃ media, told = [.inc .uploadsTotal, .publish (.uploaded (uploadedPayload media))]

theorem uploadHeld_told {ownerId : String} {file : File} {context : MediaContext}
    {thumbnailFile : Option File} {sharedWith : Option (List String)}
    {r : Except HttpErr UploadMediaResponseDto}
    (h : (HttpService.uploadHeld env ownerId file context thumbnailFile sharedWith).run.Follows l
      (.pure r)) : UploadTold (told l) := by
  have hfail (_ : HttpErr) : UploadTold [] := Or.inl rfl
  refine told_within_bind (P := fun _ => UploadTold) h hfail fun _ _ l₁ _ _ h₁ => ?_
  refine told_within_bind (P := fun _ => UploadTold) h₁ hfail fun _ _ l₂ _ _ h₂ => ?_
  refine told_within_bind (P := fun _ => UploadTold) h₂ hfail fun _ _ l₃ _ _ h₃ => ?_
  refine told_within_bind (P := fun _ => UploadTold) h₃ hfail fun duplicate _ l₄ _ _ h₄ => ?_
  cases duplicate with
  | some existing =>
    refine told_within_bind (P := fun _ => UploadTold) h₄ hfail fun _ _ l₅ _ _ h₅ => ?_
    exact Or.inl (told_within h₅)
  | none =>
    refine told_within_bind (P := fun _ => UploadTold) h₄ hfail fun media _ l₅ _ _ h₅ => ?_
    refine told_within_bind (P := fun _ => UploadTold) h₅ hfail fun _ _ l₆ _ _ h₆ => ?_
    refine told_within_bind (P := fun _ => UploadTold) h₆ hfail fun _ _ l₇ _ _ h₇ => ?_
    obtain ⟨_, l₈, ht₈, h₈⟩ := told_tell_bind h₇
    obtain ⟨_, l₉, ht₉, h₉⟩ := told_tell_bind h₈
    exact Or.inr ⟨media, by rw [ht₈, ht₉, told_within h₉]⟩

theorem upload_told {ownerId : String} {file : File} {context : MediaContext}
    {thumbnailFile : Option File} {sharedWith : Option (List String)}
    {r : Except HttpErr UploadMediaResponseDto}
    (h : (HttpService.upload env ownerId file context thumbnailFile sharedWith).run.Follows l
      (.pure r)) : UploadTold (told l) := by
  refine told_within_bind (P := fun _ => UploadTold) h (fun _ => Or.inl rfl) fun _ _ l₁ _ _ h₁ => ?_
  obtain ⟨l₂, l₃, _, rfl, h₂, hfin⟩ := ProgE.follows_of_ensuring h₁
  have hnone : told l₃ = [] := by
    rcases hfin with ⟨_, h₃, -⟩ | ⟨h₃, -⟩
    · exact told_within h₃
    · exact told_within h₃
  rw [told_append, hnone, List.append_nil]
  exact uploadHeld_told h₂

section Calls
variable {ipAddress userAgent : Option String} {id user : String} {log : List HttpEvent}

theorem result_of_pure {a : α} {r : Except HttpErr α}
    (h : (pure a : Http α).run.Follows l (.pure r)) : l = [] ∧ r = .ok a := by
  obtain ⟨rfl, hr⟩ := Prog.Follows.of_pure h
  exact ⟨rfl, Prog.pure.inj hr⟩

/-- The first part of a read, which finds the row. -/
theorem found_of_read {media : Media} {l₁ : ServiceLog} {l₂ : List HttpEvent}
    (hl : l = l₁.map lift ++ l₂) (h : (findReadable id user).run.Follows l₁ (.pure (.ok media))) :
    (⟨.inl (.findMedia user id), .ok (some media)⟩ : HttpEvent) ∈ l := by
  rw [hl]
  exact List.mem_append_left _ (List.mem_map_of_mem (findReadable_follows h ▸ List.mem_cons_self))

theorem getBlob_tells {r : Except HttpErr BlobUrlResponseDto}
    (h : (HttpService.getBlob env id user ipAddress userAgent).run.Follows l (.pure r)) :
    Tells ipAddress userAgent l (.getBlob id user) (r.map Reply.blobUrl) (told l) := by
  let P (r : Except HttpErr BlobUrlResponseDto) (t : List HttpCmd) : Prop :=
    Tells ipAddress userAgent l (.getBlob id user) (r.map Reply.blobUrl) t
  refine told_within_bind (P := P) h (fun e => .failed e) fun media l₁ l₂ hl h₁ h₂ => ?_
  refine told_within_bind (P := P) h₂ (fun e => .failed e) fun dto _ l₃ _ _ h₃ => ?_
  obtain ⟨_, l₄, ht₄, h₄⟩ := told_tell_bind h₃
  obtain ⟨_, l₅, ht₅, h₅⟩ := told_tell_bind h₄
  obtain ⟨rfl, rfl⟩ := result_of_pure h₅
  rw [ht₄, ht₅]
  exact .blobUrl (found_of_read hl h₁)

theorem getThumbnail_tells {r : Except HttpErr ThumbnailUrlResponseDto}
    (h : (HttpService.getThumbnail env id user ipAddress userAgent).run.Follows l (.pure r)) :
    Tells ipAddress userAgent l (.getThumbnail id user) (r.map Reply.thumbnailUrl) (told l) := by
  let P (r : Except HttpErr ThumbnailUrlResponseDto) (t : List HttpCmd) : Prop :=
    Tells ipAddress userAgent l (.getThumbnail id user) (r.map Reply.thumbnailUrl) t
  refine told_within_bind (P := P) h (fun e => .failed e) fun media l₁ l₂ hl h₁ h₂ => ?_
  cases hpath : truthy media.thumbnailPath with
  | none =>
    rw [hpath] at h₂
    obtain ⟨rfl, rfl⟩ := result_of_pure h₂
    exact .noThumbnail
  | some path =>
    rw [hpath] at h₂
    refine told_within_bind (P := P) h₂ (fun e => .failed e) fun url _ l₃ _ _ h₃ => ?_
    refine told_within_bind (P := P) h₃ (fun e => .failed e) fun now _ l₄ _ _ h₄ => ?_
    obtain ⟨_, l₅, ht₅, h₅⟩ := told_tell_bind h₄
    obtain ⟨_, l₆, ht₆, h₆⟩ := told_tell_bind h₅
    obtain ⟨rfl, rfl⟩ := result_of_pure h₆
    rw [ht₅, ht₆]
    exact .thumbnailUrl (found_of_read hl h₁)

theorem streamBlob_tells {r : Except HttpErr StreamableFile}
    (h : (HttpService.streamBlob id user ipAddress userAgent).run.Follows l (.pure r)) :
    Tells ipAddress userAgent l (.streamBlob id user) (r.map Reply.blob) (told l) := by
  let P (r : Except HttpErr StreamableFile) (t : List HttpCmd) : Prop :=
    Tells ipAddress userAgent l (.streamBlob id user) (r.map Reply.blob) t
  refine told_within_bind (P := P) h (fun e => .failed e) fun media l₁ l₂ hl h₁ h₂ => ?_
  refine told_within_bind (P := P) h₂ (fun e => .failed e) fun body _ l₃ _ _ h₃ => ?_
  obtain ⟨_, l₄, ht₄, h₄⟩ := told_tell_bind h₃
  obtain ⟨rfl, rfl⟩ := result_of_pure h₄
  rw [ht₄]
  exact .blob (found_of_read hl h₁)

theorem streamThumbnail_tells {r : Except HttpErr (Option StreamableFile)}
    (h : (HttpService.streamThumbnail id user ipAddress userAgent).run.Follows l (.pure r)) :
    Tells ipAddress userAgent l (.streamThumbnail id user) (r.map Reply.thumbnail) (told l) := by
  let P (r : Except HttpErr (Option StreamableFile)) (t : List HttpCmd) : Prop :=
    Tells ipAddress userAgent l (.streamThumbnail id user) (r.map Reply.thumbnail) t
  refine told_within_bind (P := P) h (fun e => .failed e) fun media l₁ l₂ hl h₁ h₂ => ?_
  cases hpath : truthy media.thumbnailPath with
  | none =>
    rw [hpath] at h₂
    obtain ⟨rfl, rfl⟩ := result_of_pure h₂
    exact .quiet (by simp) (by simp) (by simp) (by simp) (by simp)
  | some path =>
    rw [hpath] at h₂
    refine told_within_bind (P := P) h₂ (fun e => .failed e) fun body _ l₃ _ _ h₃ => ?_
    obtain ⟨_, l₄, ht₄, h₄⟩ := told_tell_bind h₃
    obtain ⟨rfl, rfl⟩ := result_of_pure h₄
    rw [ht₄]
    exact .thumbnail (found_of_read hl h₁)

theorem delete_tells {r : Except HttpErr Unit}
    (h : (HttpService.delete id user ipAddress userAgent).run.Follows l (.pure r)) :
    Tells ipAddress userAgent l (.delete id user) (r.map fun _ => Reply.done) (told l) := by
  let P (r : Except HttpErr Unit) (t : List HttpCmd) : Prop :=
    Tells ipAddress userAgent l (.delete id user) (r.map fun _ => Reply.done) t
  refine told_within_bind (P := P) h (fun e => .failed e) fun media l₁ l₂ hl h₁ h₂ => ?_
  refine told_within_bind (P := P) h₂ (fun e => .failed e) fun _ _ l₃ _ _ h₃ => ?_
  refine told_within_bind (P := P) h₃ (fun e => .failed e) fun _ _ l₄ _ _ h₄ => ?_
  refine told_within_bind (P := P) h₄ (fun e => .failed e) fun _ _ l₅ _ _ h₅ => ?_
  obtain ⟨_, l₆, ht₆, h₆⟩ := told_tell_bind h₅
  obtain ⟨_, l₇, ht₇, h₇⟩ := told_tell_bind h₆
  obtain ⟨_, rfl, rfl⟩ := follows_of_tell h₇
  rw [ht₆, ht₇, told_cons]
  refine .deleted ?_
  rw [hl, findActive_follows h₁]
  exact List.mem_append_left _ List.mem_cons_self

theorem handle_tells {x : Call} {r : Except HttpErr Reply}
    (h : (HttpService.handle env ipAddress userAgent x).run.Follows l (.pure r)) :
    Tells ipAddress userAgent l x r (told l) := by
  cases x with
  | upload ownerId file context thumbnailFile sharedWith =>
    obtain ⟨r', h', rfl⟩ := ProgE.follows_of_map h
    rcases upload_told h' with hnone | ⟨media, htold⟩
    · rw [hnone]
      cases r' with
      | ok dto => exact .reused dto
      | error e => exact .failed e
    · rw [htold]
      refine .uploaded media fun reply hreply => ?_
      cases r' with
      | ok dto => exact ⟨dto, (Except.ok.inj hreply).symm⟩
      | error e => exact absurd hreply (by simp [Except.map])
  | delete id user =>
    obtain ⟨r', h', rfl⟩ := ProgE.follows_of_map h
    exact delete_tells h'
  | getBlob id user =>
    obtain ⟨r', h', rfl⟩ := ProgE.follows_of_map h
    exact getBlob_tells h'
  | getThumbnail id user =>
    obtain ⟨r', h', rfl⟩ := ProgE.follows_of_map h
    exact getThumbnail_tells h'
  | streamBlob id user =>
    obtain ⟨r', h', rfl⟩ := ProgE.follows_of_map h
    exact streamBlob_tells h'
  | streamThumbnail id user =>
    obtain ⟨r', h', rfl⟩ := ProgE.follows_of_map h
    exact streamThumbnail_tells h'
  | _ =>
    obtain ⟨l', r', rfl, h', rfl⟩ := ProgE.follows_of_inner h
    obtain ⟨r, -, rfl⟩ := ProgE.follows_of_map h'
    rw [told_lift]
    cases r with
    | ok a => exact .quiet (by simp) (by simp) (by simp) (by simp) (by simp)
    | error e => exact .failed _

end Calls

end Programs

/-! A request, once it has been answered -/

/-- The request with which the controller was entered. -/
def enteredBy (log : List HttpEvent) : Option Request :=
  log.findSome? fun e => match e.1 with
    | .inr (.enter request) => some request
    | _ => none

/-- A row of the access log about a media, as the database spells its id. -/
def accessTo (env : Env) (req : HttpRequest) (id user accessType : String) : List Access :=
  (env.uuidIn id).toList.map fun mediaId => ⟨mediaId, some user, accessType,
    HttpService.extractClientIp req, req.userAgent.map (sliceTo 512)⟩

/-- The access-log rows that an answered request leaves behind: reads of blobs and thumbnails leave one
if they hand out something, and deletions; the answer of an upload leaves none, for all its URLs. -/
def accessesOf (env : Env) (req : HttpRequest) (request : Request) (answer : Except HttpErr Reply) :
    List Access :=
  match MediaController.route request, answer with
  | .ok (.getBlob id user), .ok _ => accessTo env req id user "blob"
  | .ok (.streamBlob id user), .ok _ => accessTo env req id user "blob"
  | .ok (.getThumbnail id user), .ok (.thumbnailUrl ⟨some _, _⟩) =>
    accessTo env req id user "thumbnail"
  | .ok (.streamThumbnail id user), .ok (.thumbnail (some _)) =>
    accessTo env req id user "thumbnail"
  | .ok (.delete id user), .ok _ => accessTo env req id user "delete"
  | _, _ => []

def accessesOfThread (env : Env) (t : HttpThread) : List Access :=
  match t.call, enteredBy t.log, t.outcome with
  | .request req, some request, some answer => accessesOf env req request answer
  | _, _, _ => []

section Served
variable {env : Env} {req : HttpRequest} {l : List HttpEvent} {a : Except HttpErr Reply}

theorem accessTo_of_found {id mediaId user accessType : String} (h : env.uuidIn id = some mediaId) :
    accessTo env req id user accessType = [⟨mediaId, some user, accessType,
      HttpService.extractClientIp req, req.userAgent.map (sliceTo 512)⟩] := by
  simp [accessTo, h]

/-- What `respond` makes of an answer. -/
def responded (r : Except HttpErr Reply) : Except HttpErr Reply :=
  r.bind fun reply => (MediaController.respond reply).mapError HttpErr.exception

/-- The rows that a call tells of are those of its answer. -/
theorem Tells.accesses {request : Request} {x : Call} {r : Except HttpErr Reply}
    {cs : List HttpCmd} (hroute : MediaController.route request = .ok x)
    (h : Tells (HttpService.extractClientIp req) req.userAgent l x r cs)
    (hfound : ∀ user id, ∀ media : Media,
      (⟨.inl (.findMedia user id), .ok (some media)⟩ : HttpEvent) ∈ l → env.uuidIn id = some media.id) :
    cs.flatMap HttpCmd.accesses = accessesOf env req request (responded r) := by
  unfold accessesOf
  rw [hroute]
  cases h with
  | failed e => cases x <;> rfl
  | @quiet _ reply hx hurl hfile _ _ =>
    cases reply with
    | thumbnailUrl dto => exact absurd rfl (hurl dto)
    | thumbnail file =>
      cases file with
      | some file => exact absurd rfl (hfile file)
      | none => cases x <;> rfl
    | _ =>
      cases x with
      | getBlob id user => exact absurd rfl (hx id user).1
      | streamBlob id user => exact absurd rfl (hx id user).2.1
      | delete id user => exact absurd rfl (hx id user).2.2
      | _ => rfl
  | noThumbnail => rfl
  | reused dto => rfl
  | uploaded media _ => rfl
  | deleted found => exact (accessTo_of_found (hfound _ _ _ found)).symm
  | blobUrl found => exact (accessTo_of_found (hfound _ _ _ found)).symm
  | thumbnailUrl found => exact (accessTo_of_found (hfound _ _ _ found)).symm
  | blob found => exact (accessTo_of_found (hfound _ _ _ found)).symm
  | thumbnail found => exact (accessTo_of_found (hfound _ _ _ found)).symm

/-- A check of the controller gives no command. -/
theorem follows_of_sync {α : Type} {x : Except Err α} {r : Except HttpErr α}
    (h : (within (sync x)).run.Follows l (.pure r)) : l = [] ∧ r = x.mapError HttpErr.exception := by
  obtain ⟨l', r', rfl, h', rfl⟩ := ProgE.follows_of_inner h
  obtain ⟨rfl, hr⟩ := Prog.Follows.of_pure h'
  obtain rfl := Prog.pure.inj hr
  exact ⟨rfl, rfl⟩

/-- The controller: its call, or an error of the route. -/
theorem respond_told {request : Request}
    (h : (HttpService.respond env req request).run.Follows l (.pure a)) :
    (told l = [] ∧ ∃ e, a = .error e) ∨ ∃ x r, MediaController.route request = .ok x ∧
      a = responded r ∧ Tells (HttpService.extractClientIp req) req.userAgent l x r (told l) := by
  rcases ProgE.follows_of_bind h with ⟨e, h₁, rfl⟩ | ⟨x, l₁, l₂, rfl, h₁, h₂⟩
  · obtain ⟨rfl, -⟩ := follows_of_sync h₁
    exact Or.inl ⟨rfl, e, rfl⟩
  · obtain ⟨rfl, hx⟩ := follows_of_sync h₁
    have hroute : MediaController.route request = .ok x := by
      cases hr : MediaController.route request with
      | ok y =>
        rw [hr] at hx
        exact congrArg Except.ok (Except.ok.inj hx).symm
      | error e =>
        rw [hr] at hx
        exact absurd hx (by simp [Except.mapError])
    rw [List.nil_append]
    right
    rcases ProgE.follows_of_bind h₂ with ⟨e, h₃, rfl⟩ | ⟨reply, l₃, l₄, rfl, h₃, h₄⟩
    · exact ⟨x, .error e, hroute, rfl, handle_tells h₃⟩
    · obtain ⟨rfl, rfl⟩ := follows_of_sync h₄
      rw [List.append_nil]
      exact ⟨x, .ok reply, hroute, rfl, handle_tells h₃⟩

/-- A command that leaves nothing behind. -/
def HttpCmd.Traceless (c : HttpCmd) : Prop := c.accesses = [] ∧ c.events = [] ∧ c.counts = []

theorem traceless_of_guard {c : HttpCmd} (h : OfGuard (.inr c)) : c.Traceless := by
  cases c with
  | getPublicKeyPem | verifyAsync | getRevocation => exact ⟨rfl, rfl, rfl⟩
  | _ => exact h.elim

theorem guard_told {l : List HttpEvent} (h : ∀ e ∈ l, OfGuard e.1) :
    enteredBy l = none ∧ ∀ c ∈ told l, c.Traceless := by
  constructor
  · refine List.findSome?_eq_none_iff.mpr fun e he => ?_
    obtain ⟨c | c, r⟩ := e
    · rfl
    · cases c with
      | enter request => exact (h _ he).elim
      | _ => rfl
  · intro c hc
    obtain ⟨⟨d | d, r⟩, he, hd⟩ := List.mem_filterMap.mp hc
    · exact absurd hd (by simp)
    · obtain rfl := Option.some.inj hd
      exact traceless_of_guard (h _ he)

/-- An answered request: refused by the guard, or entered, and then what it tells is of its answer. -/
theorem serve_told (h : (HttpService.serve env req).run.Follows l (.pure a)) :
    ∃ cs l₂, told l = cs ++ told l₂ ∧ (∀ c ∈ cs, c.Traceless) ∧ (∀ e ∈ l₂, e ∈ l) ∧
      ((enteredBy l = none ∧ told l₂ = [] ∧ ∃ e, a = .error e) ∨
        ∃ request, enteredBy l = some request ∧ request.endpoint = req.endpoint ∧
          ((told l₂ = [] ∧ ∃ e, a = .error e) ∨ ∃ x r, 
            MediaController.route request = .ok x ∧ a = responded r ∧
            Tells (HttpService.extractClientIp req) req.userAgent l₂ x r (told l₂))) := by
  have hguard := canActivate_issues false req.authorization
  rcases ProgE.follows_of_bind h with ⟨e, h₁, rfl⟩ | ⟨user, l₁, l₂, rfl, h₁, h₂⟩
  · obtain ⟨hnone, htold⟩ := guard_told (hguard.of_follows h₁).1
    exact ⟨told l, [], by simp [told], htold, by simp, Or.inl ⟨hnone, rfl, e, rfl⟩⟩
  · obtain ⟨hnone, htold⟩ := guard_told (hguard.of_follows h₁).1
    obtain ⟨_, l₃, rfl, h₃⟩ := follows_of_tell_bind h₂
    have hentered : enteredBy (l₁ ++ ⟨.inr (.enter ⟨(user.map AuthUser.userId).getD "",
        req.endpoint⟩), ()⟩ :: l₃) = some ⟨(user.map AuthUser.userId).getD "", req.endpoint⟩ := by
      rw [enteredBy, List.findSome?_append]
      rw [enteredBy] at hnone
      rw [hnone]
      rfl
    refine ⟨told l₁ ++ [.enter ⟨(user.map AuthUser.userId).getD "", req.endpoint⟩], l₃, ?_,
      fun c hc => ?_, fun e he => ?_, Or.inr ⟨_, hentered, rfl, respond_told h₃⟩⟩
    · rw [told_append, told_cons, List.append_assoc]
      rfl
    · rcases List.mem_append.mp hc with hc | hc
      · exact htold c hc
      · obtain rfl := List.mem_singleton.mp hc
        exact ⟨rfl, rfl, rfl⟩
    · exact List.mem_append_right _ (List.mem_cons_of_mem _ he)

/-- What an answered request leaves in the access log. -/
theorem serve_accesses (h : (HttpService.serve env req).run.Follows l (.pure a))
    (hfound : ∀ user id, ∀ media : Media,
      (⟨.inl (.findMedia user id), .ok (some media)⟩ : HttpEvent) ∈ l → env.uuidIn id = some media.id) :
    (told l).flatMap HttpCmd.accesses =
      (enteredBy l).elim [] fun request => accessesOf env req request a := by
  obtain ⟨cs, l₂, htold, hcs, hsub, hcases⟩ := serve_told h
  have hnone : cs.flatMap HttpCmd.accesses = [] :=
    List.flatMap_eq_nil_iff.mpr fun c hc => (hcs c hc).1
  rw [htold, List.flatMap_append, hnone, List.nil_append]
  rcases hcases with ⟨hentered, h₂, -⟩ |
    ⟨request, hentered, -, ⟨h₂, e, rfl⟩ | ⟨x, r, hroute, rfl, htells⟩⟩
  · rw [hentered, h₂]
    rfl
  · rw [hentered, h₂]
    show [] = accessesOf env req request (.error e)
    unfold accessesOf
    cases MediaController.route request with
    | error e' => rfl
    | ok x => cases x <;> rfl
  · rw [hentered]
    exact htells.accesses hroute fun user id media he => hfound user id media (hsub _ he)

end Served

/-! Runs -/

section Ledgers
variable {KeyObject : Type} (env : Env) (http : HttpEnv KeyObject)
  (fault : Cmd → World → Option Fault)

/-- The rows of the access log. -/
def accessLedger : Ledger (httpService env http fault) (Multiset Access) (· = ·) where
  holds w := ↑(w.accessLog.map MediaAccessLog.access)
  entry e := match e.1 with
    | .inl _ => 0
    | .inr c => ↑c.accesses
  exec c w := by
    rcases c with c | c
    · exact add_zero _
    · cases c with
      | writeAccessLog mediaId accessorId accessType ipAddress userAgent =>
        have happend (rows : List MediaAccessLog) (row : MediaAccessLog) :
            (↑(rows.map MediaAccessLog.access) + ↑[row.access] : Multiset Access) =
              ↑((rows ++ [row]).map MediaAccessLog.access) := by
          rw [List.map_append, Multiset.coe_add]
          rfl
        exact happend w.accessLog ⟨w.service.now, http.logId w.accessLog.length, mediaId,
          some accessorId, accessType, ipAddress, userAgent.map (sliceTo 512)⟩
      | _ => exact add_zero _
  act a w := by cases a <;> rfl

variable {env http fault} in
theorem access_entries (l : List HttpEvent) :
    (accessLedger env http fault).entries l = ↑((told l).flatMap HttpCmd.accesses) := by
  induction l with
  | nil => rfl
  | cons e l ih =>
    obtain ⟨c | c, r⟩ := e
    · exact (zero_add _).trans ih
    · rw [told_cons, List.flatMap_cons, ← Multiset.coe_add, ← ih]
      rfl

variable {env http fault} in
theorem event_entries (l : List HttpEvent) :
    (eventLedger env http fault).entries l = ↑((told l).flatMap HttpCmd.events) := by
  induction l with
  | nil => rfl
  | cons e l ih =>
    obtain ⟨c | c, r⟩ := e
    · exact (zero_add _).trans ih
    · rw [told_cons, List.flatMap_cons, ← Multiset.coe_add, ← ih]
      cases c <;> rfl

/-- A counter. -/
def counterLedger (counter : MetricsCounter) : Ledger (httpService env http fault) ℕ (· = ·) where
  holds w := w.counters counter
  entry e := match e.1 with
    | .inl _ => 0
    | .inr c => c.counts.count counter
  exec c w := by
    rcases c with c | c
    · exact add_zero _
    · cases c with
      | inc counter' =>
        show w.counters counter + [counter'].count counter =
          Function.update w.counters counter' (w.counters counter' + 1) counter
        by_cases h : counter = counter'
        · rw [h, Function.update_self, List.count_singleton_self]
        · rw [Function.update_of_ne h, List.count_eq_zero_of_not_mem (by simpa using h), add_zero]
      | _ => exact add_zero _
  act a w := by cases a <;> rfl

variable {env http fault} in
theorem counter_entries (counter : MetricsCounter) (l : List HttpEvent) :
    (counterLedger env http fault counter).entries l =
      ((told l).flatMap HttpCmd.counts).count counter := by
  induction l with
  | nil => rfl
  | cons e l ih =>
    obtain ⟨c | c, r⟩ := e
    · exact (zero_add _).trans ih
    · rw [told_cons, List.flatMap_cons, List.count_append, ← ih]
      rfl

end Ledgers

section AtRest
variable {KeyObject : Type} {env : Env} {http : HttpEnv KeyObject}
  {fault : Cmd → World → Option Fault} {q : HttpPool KeyObject}
  {ok : HttpPool KeyObject → Label HttpCall HttpAct → Prop}

/-- A row that was found for an id is the row of this id. -/
theorem found_id (hq : (httpService env http fault).Runs ok ⟨.start http, []⟩ q) {t : HttpThread}
    (ht : t ∈ q.threads) {user id : String} {media : Media}
    (h : (⟨.inl (.findMedia user id), .ok (some media)⟩ : HttpEvent) ∈ t.log) :
    env.uuidIn id = some media.id := by
  obtain ⟨w, w', hexec, -, -, -⟩ := moment_of_returned hq ht h
  obtain ⟨-, u, -, hid, -, -, -⟩ := exec_findMedia hexec rfl
  exact hid

/-- What an answered thread leaves in the access log. -/
theorem thread_accesses (hq : (httpService env http fault).Runs ok ⟨.start http, []⟩ q)
    {t : HttpThread} (ht : t ∈ q.threads) (hdone : t.outcome.isSome) :
    (told t.log).flatMap HttpCmd.accesses = accessesOfThread env t := by
  obtain ⟨a, ha⟩ := Option.isSome_iff_exists.mp hdone
  have hfollows := hq.follows (fun t ht => absurd ht List.not_mem_nil) t ht
  have hfound (user id : String) (media : Media)
      (h : (⟨.inl (.findMedia user id), .ok (some media)⟩ : HttpEvent) ∈ t.log) :
      env.uuidIn id = some media.id := found_id hq ht h
  rw [Thread.rest_of_outcome ha] at hfollows
  unfold accessesOfThread
  rw [ha]
  cases hcall : t.call with
  | request req =>
    rw [hcall] at hfollows
    rw [serve_accesses hfollows hfound]
    cases enteredBy t.log <;> rfl
  | resetDailyUploads =>
    rw [hcall] at hfollows
    rw [told_within hfollows]
    rfl
  | checkAndPublishQuotaAlert userId =>
    rw [hcall] at hfollows
    rw [told_within hfollows]
    rfl

end AtRest

/-- The row fits the columns of `media_access_logs`. -/
def MediaAccessLog.Fits (row : MediaAccessLog) : Prop :=
  row.accessType.length ≤ 64 ∧ (∀ ip ∈ row.ipAddress, ip.length ≤ 45) ∧
    ∀ userAgent ∈ row.userAgent, userAgent.length ≤ 512

section Fits
variable {env : Env} {req : HttpRequest}

theorem sliceTo_length (n : ℕ) (s : String) : (sliceTo n s).length ≤ n := by
  rw [sliceTo, String.length_ofList]
  exact List.length_take_le n _

theorem clientIp_length {ip : String} (h : HttpService.extractClientIp req = some ip) :
    ip.length ≤ 45 := by
  unfold HttpService.extractClientIp at h
  simp only at h
  split at h
  · obtain rfl := Option.some.inj h
    exact sliceTo_length 45 _
  · obtain ⟨address, -, rfl⟩ := Option.map_eq_some_iff.mp h
    exact sliceTo_length 45 _

/-- What a request leaves in the access log fits. -/
theorem access_fits {id user accessType : String} (htype : accessType.length ≤ 64) {access : Access}
    (h : access ∈ accessTo env req id user accessType) : access.accessType.length ≤ 64 ∧
      (∀ ip ∈ access.ipAddress, ip.length ≤ 45) ∧ ∀ ua ∈ access.userAgent, ua.length ≤ 512 := by
  obtain ⟨mediaId, -, rfl⟩ := List.mem_map.mp h
  refine ⟨htype, fun ip hip => clientIp_length hip, fun ua hua => ?_⟩
  obtain ⟨full, -, rfl⟩ := Option.map_eq_some_iff.mp hua
  exact sliceTo_length 512 full

theorem accessesOf_fit {request : Request} {answer : Except HttpErr Reply} {access : Access}
    (h : access ∈ accessesOf env req request answer) : access.accessType.length ≤ 64 ∧
      (∀ ip ∈ access.ipAddress, ip.length ≤ 45) ∧ ∀ ua ∈ access.userAgent, ua.length ≤ 512 := by
  unfold accessesOf at h
  split at h
  · exact access_fits (by decide) h
  · exact access_fits (by decide) h
  · exact access_fits (by decide) h
  · exact access_fits (by decide) h
  · exact access_fits (by decide) h
  · exact absurd h List.not_mem_nil

end Fits

section AtRest
variable {KeyObject : Type} {env : Env} {http : HttpEnv KeyObject}
  {fault : Cmd → World → Option Fault} {q : HttpPool KeyObject}
  {ok : HttpPool KeyObject → Label HttpCall HttpAct → Prop}

theorem accessLog_perm (hq : (httpService env http fault).Runs ok ⟨.start http, []⟩ q)
    (hrest : q.AtRest) : (q.world.accessLog.map MediaAccessLog.access).Perm
      (q.threads.flatMap (accessesOfThread env)) := by
  have hbalance := Ledger.balance (L := accessLedger env http fault) additive_eq hq
  have htally : ∀ ts : List HttpThread, (∀ t ∈ ts, t ∈ q.threads) →
      (accessLedger env http fault).tally ts = ↑(ts.flatMap (accessesOfThread env)) := by
    intro ts
    induction ts with
    | nil => exact fun _ => rfl
    | cons t ts ih =>
      intro hts
      have ht := hts t List.mem_cons_self
      rw [List.flatMap_cons, ← Multiset.coe_add, ← ih fun t ht => hts t (List.mem_cons_of_mem _ ht),
        ← thread_accesses hq ht (hrest t ht), ← access_entries]
      rfl
  have hzero : (accessLedger env http fault).holds (.start http) = 0 := rfl
  rw [hzero, zero_add, htally q.threads fun _ ht => ht] at hbalance
  exact Multiset.coe_eq_coe.mp hbalance.symm

end AtRest

/-- Once every request has been answered, the access log has one row for each read of a blob or of a
thumbnail that was answered with a URL or a body, and one for each deletion, with the user of the token,
and no other row; and the rows fit their columns. -/
theorem access_log_exact {KeyObject : Type} (env : Env) (http : HttpEnv KeyObject)
    (fault : Cmd → World → Option Fault) (q : HttpPool KeyObject)
    (hq : (httpService env http fault).Runs (fun _ _ => True) ⟨.start http, []⟩ q)
    (hrest : q.AtRest) : (q.world.accessLog.map MediaAccessLog.access).Perm
      (q.threads.flatMap (accessesOfThread env)) ∧ ∀ row ∈ q.world.accessLog, row.Fits := by
  have hperm := accessLog_perm hq hrest
  refine ⟨hperm, fun row hrow => ?_⟩
  obtain ⟨t, -, ht⟩ := List.mem_flatMap.mp (hperm.mem_iff.mp (List.mem_map_of_mem hrow))
  unfold accessesOfThread at ht
  split at ht
  · exact accessesOf_fit ht
  · exact absurd ht List.not_mem_nil

/-- A user uploads a message and reads it; another one is refused. -/
def readAndRefused : List (Label HttpCall HttpAct) :=
  keyLoaded ++ servedAlone 0 27 (bearing "t7" (.upload exampleUploadDto)) ++
    servedAlone 2 11 (bearing "t7" (.getBlobUrl (exampleId 1) none)) ++
    servedAlone 3 6 (bearing "t8" (.getBlobUrl (exampleId 1) none)) ++ List.replicate 3 (.step 1)

instance (q : HttpPool String) : Decidable q.AtRest :=
  inferInstanceAs (Decidable (∀ t ∈ q.threads, t.outcome.isSome))

theorem access_log_exact_read : ∃ q, (httpService exampleEnv exampleHttp faultless).play
      (fun _ _ => True) ⟨.start exampleHttp, []⟩ readAndRefused = some q ∧
    q.threads.flatMap (accessesOfThread exampleEnv) =
      [⟨exampleId 1, some (exampleId 7), "blob", some "10.0.0.1", some "app"⟩] ∧
    (q.world.accessLog.map MediaAccessLog.access).Perm
      (q.threads.flatMap (accessesOfThread exampleEnv)) ∧ ∀ row ∈ q.world.accessLog, row.Fits := by
  have hplay : (((httpService exampleEnv exampleHttp faultless).play (fun _ _ => True)
      ⟨.start exampleHttp, []⟩ readAndRefused).filter fun q => q.AtRest ∧
        q.threads.flatMap (accessesOfThread exampleEnv) =
          [⟨exampleId 1, some (exampleId 7), "blob", some "10.0.0.1", some "app"⟩]).isSome = true := by
    decide +kernel
  obtain ⟨q, hq⟩ := Option.isSome_iff_exists.mp hplay
  simp only [Option.filter_eq_some_iff, decide_eq_true_eq] at hq
  obtain ⟨hq, hrest, haccesses⟩ := hq
  exact ⟨q, hq, haccesses,
    access_log_exact exampleEnv exampleHttp faultless q (System.runs_of_play hq) hrest⟩

/-! The counters -/

def MediaEvent.isUploaded : MediaEvent → Bool
  | .uploaded _ => true
  | .deleted _ => false

/-- The answer hands out a URL. -/
def handsUrl : Except HttpErr Reply → Bool
  | .ok (.uploaded dto) => dto.url.isSome || dto.thumbnail_url.isSome
  | .ok (.blobUrl _) => true
  | .ok (.thumbnailUrl dto) => dto.url.isSome
  | _ => false

/-- A read of a blob or of a thumbnail. -/
def Endpoint.isRead : Endpoint → Bool
  | .getBlobUrl _ _ | .getThumbnailUrl _ _ => true
  | _ => false

/-- Whether a thread is a read that has been answered with a URL. -/
def threadReadsUrl (t : HttpThread) : Bool :=
  match t.call, t.outcome with
  | .request req, some answer => req.endpoint.isRead && handsUrl answer
  | _, _ => false

/-- The event was published by this thread, and the PUBLISH was answered with an error. -/
def PublishFailed (event : MediaEvent) (t : HttpThread) : Prop :=
  ∃ message, (⟨.inr (.publish event), .error message⟩ : HttpEvent) ∈ t.log

section Counters
variable {env : Env} {req : HttpRequest} {l : List HttpEvent} {a : Except HttpErr Reply}

/-- What the counters count is what the events and the answers say. -/
structure Tallied (cs : List HttpCmd) (urls : ℕ) : Prop where
  uploads : (cs.flatMap HttpCmd.counts).count .uploadsTotal =
    (cs.flatMap HttpCmd.events).countP MediaEvent.isUploaded
  deletes : (cs.flatMap HttpCmd.counts).count .deletesTotal =
    (cs.flatMap HttpCmd.events).countP fun e => !e.isUploaded
  downloads : (cs.flatMap HttpCmd.counts).count .downloadsTotal = urls

theorem tallied_nil : Tallied [] 0 := ⟨rfl, rfl, rfl⟩

theorem Tells.counted {ipAddress userAgent : Option String} {x : Call} {r : Except HttpErr Reply}
    {cs : List HttpCmd} {user : String} {endpoint : Endpoint} (hx : endpoint.Calls user x)
    (h : Tells ipAddress userAgent l x r cs) :
    Tallied cs (endpoint.isRead && handsUrl (responded r)).toNat := by
  have hnone (hno : handsUrl (responded r) = false) :
      (endpoint.isRead && handsUrl (responded r)).toNat = 0 := by rw [hno, Bool.and_false]; rfl
  cases h with
  | failed e =>
    rw [hnone rfl]
    exact tallied_nil
  | @quiet _ reply _ hurl _ hblob hnew =>
    have hno : handsUrl (responded (.ok reply)) = false := by
      cases reply with
      | thumbnailUrl dto => exact absurd rfl (hurl dto)
      | blobUrl dto => exact absurd rfl (hblob dto)
      | uploaded dto => exact absurd rfl (hnew dto)
      | thumbnail file => cases file <;> rfl
      | _ => rfl
    rw [hnone hno]
    exact tallied_nil
  | noThumbnail =>
    rw [hnone rfl]
    exact tallied_nil
  | reused dto =>
    -- an upload is no read
    cases hx
    exact tallied_nil
  | uploaded media _ =>
    cases hx
    exact ⟨rfl, rfl, rfl⟩
  | deleted found =>
    cases hx
    exact ⟨rfl, rfl, rfl⟩
  | blobUrl found =>
    cases hx
    exact ⟨rfl, rfl, rfl⟩
  | thumbnailUrl found =>
    cases hx
    exact ⟨rfl, rfl, rfl⟩
  | blob found =>
    rw [hnone rfl]
    exact ⟨rfl, rfl, rfl⟩
  | thumbnail found =>
    rw [hnone rfl]
    exact ⟨rfl, rfl, rfl⟩

theorem Tallied.append {cs cs' : List HttpCmd} {n m : ℕ} (h : Tallied cs n) (h' : Tallied cs' m) :
    Tallied (cs ++ cs') (n + m) := by
  constructor
  · rw [List.flatMap_append, List.flatMap_append, List.count_append, List.countP_append, h.uploads,
      h'.uploads]
  · rw [List.flatMap_append, List.flatMap_append, List.count_append, List.countP_append, h.deletes,
      h'.deletes]
  · rw [List.flatMap_append, List.count_append, h.downloads, h'.downloads]

theorem tallied_traceless {cs : List HttpCmd} (h : ∀ c ∈ cs, c.Traceless) : Tallied cs 0 := by
  have hevents : cs.flatMap HttpCmd.events = [] :=
    List.flatMap_eq_nil_iff.mpr fun c hc => (h c hc).2.1
  have hcounts : cs.flatMap HttpCmd.counts = [] :=
    List.flatMap_eq_nil_iff.mpr fun c hc => (h c hc).2.2
  refine ⟨?_, ?_, ?_⟩ <;> simp only [hevents, hcounts, List.count_nil, List.countP_nil]

theorem serve_counted (h : (HttpService.serve env req).run.Follows l (.pure a)) :
    Tallied (told l) (req.endpoint.isRead && handsUrl a).toNat := by
  obtain ⟨cs, l₂, htold, hcs, -, hcases⟩ := serve_told h
  have hfailed (e : HttpErr) : Tallied [] (req.endpoint.isRead && handsUrl (.error e)).toNat := by
    rw [show handsUrl (.error e) = false from rfl, Bool.and_false]
    exact tallied_nil
  rw [htold, ← Nat.zero_add (req.endpoint.isRead && handsUrl a).toNat]
  refine (tallied_traceless hcs).append ?_
  rcases hcases with ⟨-, h₂, e, rfl⟩ |
    ⟨request, -, hendpoint, ⟨h₂, e, rfl⟩ | ⟨x, r, hroute, rfl, htells⟩⟩
  · rw [h₂]
    exact hfailed e
  · rw [h₂]
    exact hfailed e
  · exact htells.counted (hendpoint ▸ route_calls hroute)

variable {KeyObject : Type} {http : HttpEnv KeyObject} {fault : Cmd → World → Option Fault}
  {q : HttpPool KeyObject} {ok : HttpPool KeyObject → Label HttpCall HttpAct → Prop}

theorem thread_counted (hq : (httpService env http fault).Runs ok ⟨.start http, []⟩ q)
    {t : HttpThread} (ht : t ∈ q.threads) (hdone : t.outcome.isSome) :
    Tallied (told t.log) (threadReadsUrl t).toNat := by
  obtain ⟨a, ha⟩ := Option.isSome_iff_exists.mp hdone
  have hfollows := hq.follows (fun t ht => absurd ht List.not_mem_nil) t ht
  rw [Thread.rest_of_outcome ha] at hfollows
  unfold threadReadsUrl
  rw [ha]
  cases hcall : t.call with
  | request req =>
    rw [hcall] at hfollows
    exact serve_counted hfollows
  | resetDailyUploads =>
    rw [hcall] at hfollows
    rw [told_within hfollows]
    exact tallied_nil
  | checkAndPublishQuotaAlert userId =>
    rw [hcall] at hfollows
    rw [told_within hfollows]
    exact tallied_nil

/-- What all threads together have told. -/
theorem threads_counted {ts : List HttpThread}
    (h : ∀ t ∈ ts, Tallied (told t.log) (threadReadsUrl t).toNat) :
    Tallied (ts.flatMap fun t => told t.log) (ts.countP threadReadsUrl) := by
  induction ts with
  | nil => exact tallied_nil
  | cons t ts ih =>
    have hsum : (t :: ts).countP threadReadsUrl =
        (threadReadsUrl t).toNat + ts.countP threadReadsUrl := by
      rw [List.countP_cons]
      cases threadReadsUrl t <;> simp [Nat.add_comm]
    rw [List.flatMap_cons, hsum]
    exact (h t List.mem_cons_self).append (ih fun t ht => h t (List.mem_cons_of_mem _ ht))

theorem counters_eq (hq : (httpService env http fault).Runs ok ⟨.start http, []⟩ q)
    (counter : MetricsCounter) : q.world.counters counter =
      ((q.threads.flatMap fun t => told t.log).flatMap HttpCmd.counts).count counter := by
  have hbalance := Ledger.balance (L := counterLedger env http fault counter) additive_eq hq
  have htally : ∀ ts : List HttpThread, (counterLedger env http fault counter).tally ts =
      ((ts.flatMap fun t => told t.log).flatMap HttpCmd.counts).count counter := by
    intro ts
    induction ts with
    | nil => rfl
    | cons t ts ih =>
      rw [List.flatMap_cons, List.flatMap_append, List.count_append, ← ih, ← counter_entries]
      rfl
  rw [htally] at hbalance
  exact hbalance.symm.trans (Nat.zero_add _)

theorem sent_perm (hq : (httpService env http fault).Runs ok ⟨.start http, []⟩ q) :
    q.world.sent.Perm ((q.threads.flatMap fun t => told t.log).flatMap HttpCmd.events) := by
  have hbalance := Ledger.balance (L := eventLedger env http fault) additive_eq hq
  have htally : ∀ ts : List HttpThread, (eventLedger env http fault).tally ts =
      ↑((ts.flatMap fun t => told t.log).flatMap HttpCmd.events) := by
    intro ts
    induction ts with
    | nil => rfl
    | cons t ts ih =>
      rw [List.flatMap_cons, List.flatMap_append, ← Multiset.coe_add, ← ih, ← event_entries]
      rfl
  rw [htally] at hbalance
  exact Multiset.coe_eq_coe.mp (hbalance.symm.trans (zero_add _))

variable (env http fault) in
/-- An event is lost if its PUBLISH fails. -/
def lostOrigin : Origin (httpService env http fault) MediaEvent where
  holds w event := event ∈ w.lost
  enters e event := ∃ message, e = ⟨.inr (.publish event), .error message⟩
  exec c w event h := by
    rcases c with c | c
    · exact Or.inl h
    · cases c with
      | publish event' =>
        simp only [httpService, HttpEnv.exec] at h ⊢
        generalize http.publishFault (w.published.length + w.lost.length) = f at h ⊢
        cases f with
        | none => exact Or.inl h
        | some f =>
          split at h
          · exact Or.inl h
          · refine (List.mem_append.mp h).imp_right fun h => ⟨f.message, ?_⟩
            rw [List.mem_singleton.mp h]
      | _ => exact Or.inl h
  act a w event h := by cases a <;> exact h

theorem lost_failed (hq : (httpService env http fault).Runs ok ⟨.start http, []⟩ q)
    {event : MediaEvent} (h : event ∈ q.world.lost) : ∃ t ∈ q.threads, PublishFailed event t := by
  rcases Origin.entered (O := lostOrigin env http fault) hq (.refl q) h with
    hstart | ⟨i, t, ht, e, he, message, rfl⟩
  · exact absurd hstart List.not_mem_nil
  · exact ⟨t, List.mem_of_getElem? ht, message, he⟩

end Counters

/-- Once every request has been answered, the counters say how many uploads and deletions have been
announced, to subscribers or by a PUBLISH that failed, and how many reads of blobs and thumbnails were
answered with a URL. -/
theorem counters_exact {KeyObject : Type} (env : Env) (http : HttpEnv KeyObject)
    (fault : Cmd → World → Option Fault) (q : HttpPool KeyObject)
    (hq : (httpService env http fault).Runs (fun _ _ => True) ⟨.start http, []⟩ q)
    (hrest : q.AtRest) :
    q.world.counters .uploadsTotal = q.world.published.countP MediaEvent.isUploaded +
      q.world.lost.countP MediaEvent.isUploaded ∧
    q.world.counters .deletesTotal = (q.world.published.countP fun e => !e.isUploaded) +
      (q.world.lost.countP fun e => !e.isUploaded) ∧
    (∀ event ∈ q.world.lost, ∃ t ∈ q.threads, PublishFailed event t) ∧
    q.world.counters .downloadsTotal = q.threads.countP threadReadsUrl := by
  have hcounted := threads_counted fun t ht => thread_counted hq ht (hrest t ht)
  have hperm := sent_perm hq
  refine ⟨?_, ?_, fun event h => lost_failed hq h, ?_⟩
  · rw [counters_eq hq, hcounted.uploads, ← hperm.countP_eq, HttpWorld.sent, List.countP_append]
  · rw [counters_eq hq, hcounted.deletes, ← hperm.countP_eq, HttpWorld.sent, List.countP_append]
  · rw [counters_eq hq, hcounted.downloads]

/-- Redis is down whenever an event is published. -/
def publishDown : HttpEnv String :=
  { exampleHttp with publishFault := fun _ => some ⟨"Connection is closed.", false⟩ }

/-- The upload is counted though its event is lost, and of two answers with a URL the read is. -/
theorem counters_exact_read : ∃ q, (httpService exampleEnv publishDown faultless).play
      (fun _ _ => True) ⟨.start publishDown, []⟩ readAndRefused = some q ∧
    (q.world.published = [] ∧ q.world.counters .uploadsTotal = 1 ∧
      q.world.counters .downloadsTotal = 1 ∧
      q.threads.countP (fun t => t.outcome.any handsUrl) = 2) ∧
    q.world.counters .uploadsTotal = q.world.published.countP MediaEvent.isUploaded +
      q.world.lost.countP MediaEvent.isUploaded ∧
    q.world.counters .deletesTotal = (q.world.published.countP fun e => !e.isUploaded) +
      (q.world.lost.countP fun e => !e.isUploaded) ∧
    (∀ event ∈ q.world.lost, ∃ t ∈ q.threads, PublishFailed event t) ∧
    q.world.counters .downloadsTotal = q.threads.countP threadReadsUrl := by
  have hplay : (((httpService exampleEnv publishDown faultless).play (fun _ _ => True)
      ⟨.start publishDown, []⟩ readAndRefused).filter fun q => q.AtRest ∧
        q.world.published = [] ∧ q.world.counters .uploadsTotal = 1 ∧
        q.world.counters .downloadsTotal = 1 ∧
        q.threads.countP (fun t => t.outcome.any handsUrl) = 2).isSome = true := by
    decide +kernel
  obtain ⟨q, hq⟩ := Option.isSome_iff_exists.mp hplay
  simp only [Option.filter_eq_some_iff, decide_eq_true_eq] at hq
  obtain ⟨hq, hrest, hcounts⟩ := hq
  exact ⟨q, hq, hcounts,
    counters_exact exampleEnv publishDown faultless q (System.runs_of_play hq) hrest⟩

end WhisprMedia
