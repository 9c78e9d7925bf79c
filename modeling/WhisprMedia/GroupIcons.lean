import WhisprMedia.MediaController
import WhisprMedia.SerialService

/-! Who may upload a group icon. The id that the client sends to group-service as the group, and
then looks for among the members, is the id of the uploader. -/
namespace WhisprMedia
open Awaiting MediaService

/-- The groups that exist, by id, with their members. -/
abbrev Memberships := String → Option (List GroupMember)

/-- The user has the role `admin` in some group. -/
def Memberships.IsAdmin (groups : Memberships) (userId : String) : Prop :=
  ∃ group members, groups group = some members ∧ ⟨userId, "admin"⟩ ∈ members

/-- group-service can be reached and answers from these memberships. -/
structure ServesGroups (env : Env) (groups : Memberships) : Prop where
  configured : (GroupService.baseUrl env).isEmpty = false
  answers : ∀ n id, ∃ response, env.groupMembers n id = .ok response ∧ match groups id with
    | some members => 200 ≤ response.status ∧ response.status ≤ 299 ∧
        GroupService.members response.body = members
    | none => response.status = 404 ∨ response.status = 403

/-- `authorizeGroupIconUpload` returns. -/
def PassesAuthorization (env : Env) (w : World) (context : MediaContext) (ownerId : String) : Prop :=
  (Prog.run env.exec (authorizeGroupIconUpload env context ownerId).run w).result = .ok ()

section Decisions
variable {env : Env} {groups : Memberships} {w : World}

/-- What the client makes of the answer about `id`: whether `id` is an admin of the group `id`. -/
theorem isAdminOf_answer {id : String} {response : GroupServiceAnswer}
    (h : match groups id with
      | some members => 200 ≤ response.status ∧ response.status ≤ 299 ∧
          GroupService.members response.body = members
      | none => response.status = 404 ∨ response.status = 403) :
    GroupService.isAdminOf id response =
      .ok (decide (∃ members ∈ groups id, ⟨id, "admin"⟩ ∈ members)) := by
  unfold GroupService.isAdminOf
  cases hg : groups id with
  | none =>
    rw [hg] at h
    have hstatus : (response.status = 404 || response.status = 403) = true := by simpa using h
    rw [if_pos hstatus]
    simp
  | some members =>
    rw [hg] at h
    obtain ⟨hlo, hhi, hmembers⟩ := h
    have hstatus : ¬ (response.status = 404 || response.status = 403) = true := by
      simp only [Bool.or_eq_true, decide_eq_true_eq]
      omega
    have hok : ¬ (!(200 ≤ response.status && response.status ≤ 299 : Bool)) = true := by
      simp [hlo, hhi]
    rw [if_neg hstatus, if_neg hok, hmembers]
    -- a member is its user and its role
    have hany : (members.any fun m => m.role = "admin" && m.userId = id) =
        decide (⟨id, "admin"⟩ ∈ members) := by
      rw [Bool.eq_iff_iff, List.any_eq_true, decide_eq_true_iff]
      constructor
      · rintro ⟨⟨userId, role⟩, hm, hp⟩
        obtain ⟨rfl, rfl⟩ : role = "admin" ∧ userId = id := by simpa using hp
        exact hm
      · intro hm
        exact ⟨_, hm, by simp⟩
    rw [hany]
    simp

/-- The check lets a user pass exactly as an admin of the group with the user's own id. -/
theorem passes_iff_own_group (hs : ServesGroups env groups) (ownerId : String) :
    PassesAuthorization env w .GROUP_ICON ownerId ↔
      ∃ members ∈ groups ownerId, ⟨ownerId, "admin"⟩ ∈ members := by
  obtain ⟨response, hresponse, hanswer⟩ := hs.answers w.nonce ownerId
  have hfetch : env.exec (.fetchGroupMembers ownerId) w =
      (.ok response, { w with nonce := w.nonce + 1 }) := by
    show (env.groupMembers w.nonce ownerId, _) = _
    rw [hresponse]
  have hdecide := isAdminOf_answer hanswer
  -- what group-service answers is what it serves
  have hadmin : ProgE.Ends env.exec (GroupService.isAdmin env ownerId) w
      (fun b _ => b = decide (∃ members ∈ groups ownerId, ⟨ownerId, "admin"⟩ ∈ members))
      (fun _ _ => False) := by
    unfold GroupService.isAdmin
    rw [hs.configured]
    refine ends_sync_bind (fun _ he => absurd he (by simp [throwIf])) fun _ _ => ?_
    refine ends_await_bind hfetch (ends_sync (fun b hb => ?_) fun _ he => ?_)
    · rw [hdecide] at hb
      exact (Except.ok.inj hb).symm
    · rw [hdecide] at he
      exact absurd he (by simp)
  have hends : ProgE.Ends env.exec (authorizeGroupIconUpload env .GROUP_ICON ownerId) w
      (fun _ _ => ∃ members ∈ groups ownerId, ⟨ownerId, "admin"⟩ ∈ members)
      (fun _ _ => ¬ ∃ members ∈ groups ownerId, ⟨ownerId, "admin"⟩ ∈ members) := by
    refine ProgE.Ends.bind (ProgE.Ends.tryCatch hadmin fun _ _ h => h.elim) fun b w' hb => ?_
    refine ends_sync (fun _ hok => ?_) fun e he => ?_
    · have hb' : b = true := by simpa using throwIf_eq_ok.mp hok
      exact of_decide_eq_true (hb ▸ hb')
    · intro hadm
      rw [hb, decide_eq_true hadm] at he
      exact absurd he (by simp [throwIf])
  unfold PassesAuthorization
  constructor
  · exact hends.of_ok
  · intro hadm
    cases hr : (Prog.run env.exec (authorizeGroupIconUpload env .GROUP_ICON ownerId).run w).result with
    | ok _ => rfl
    | error e => exact absurd hadm (hends.of_error hr)

/-- An upload that the controller passes on is in the name of the user who sent it. -/
theorem route_upload_owner {req : Request} {ownerId : String} {file : File} {context : MediaContext}
    {thumbnailFile : Option File} {sharedWith : Option (List String)}
    (h : MediaController.route req = .ok (.upload ownerId file context thumbnailFile sharedWith)) :
    ownerId = req.authenticatedUserId := by
  unfold MediaController.route at h
  cases he : req.endpoint with
  | upload dto =>
    rw [he] at h
    simp only [MediaController.upload] at h
    split at h
    · exact absurd h (by simp)
    · -- the checks come in order; the second compares the owner with the sender
      obtain ⟨_, -, h⟩ := bind_eq_ok h
      obtain ⟨_, howner, h⟩ := bind_eq_ok h
      obtain ⟨_, -, h⟩ := bind_eq_ok h
      obtain ⟨_, -, h⟩ := bind_eq_ok h
      have hsame : dto.ownerId.getD req.authenticatedUserId = req.authenticatedUserId := by
        simpa using throwIf_eq_ok.mp howner
      obtain ⟨rfl, -⟩ := Call.upload.inj (Except.ok.inj h)
      exact hsame
  | getMyMedia page limit =>
    rw [he] at h
    exact absurd (Except.ok.inj h) (by simp)
  | getQuota =>
    rw [he] at h
    exact absurd (Except.ok.inj h) (by simp)
  | getBlobUrl id stream | getThumbnailUrl id stream =>
    rw [he] at h
    obtain ⟨_, -, h⟩ := bind_eq_ok h
    have h := Except.ok.inj h
    split at h <;> exact absurd h (by simp)
  | getMetadata id | share id userIds | delete id =>
    rw [he] at h
    obtain ⟨_, -, h⟩ := bind_eq_ok h
    exact absurd (Except.ok.inj h) (by simp)

end Decisions

/-- Where no group has the id of the user, the check of a group-icon upload decides whether the user
is an admin of some group only for the users who are not. -/
theorem group_icons_authorised (env : Env) (groups : Memberships) (hs : ServesGroups env groups)
    (req : Request) (ownerId : String) (file : File) (thumbnailFile : Option File)
    (sharedWith : Option (List String))
    (hcall : MediaController.route req =
      .ok (.upload ownerId file .GROUP_ICON thumbnailFile sharedWith))
    (hunrelated : groups req.authenticatedUserId = none) (w : World) :
    (PassesAuthorization env w .GROUP_ICON ownerId ↔ groups.IsAdmin req.authenticatedUserId) ↔
      ¬ groups.IsAdmin req.authenticatedUserId := by
  have hrefused : ¬ PassesAuthorization env w .GROUP_ICON ownerId := by
    rw [passes_iff_own_group hs, route_upload_owner hcall, hunrelated]
    simp
  constructor
  · intro hiff hadmin
    exact hrefused (hiff.mpr hadmin)
  · intro hadmin
    exact ⟨fun h => absurd h hrefused, fun h => absurd h hadmin⟩

/-- One group, whose admin is user 7. -/
def exampleGroups : Memberships := fun group =>
  if group = exampleId 3 then some [⟨exampleId 7, "admin"⟩, ⟨exampleId 8, "member"⟩] else none

/-- A deployment whose group-service knows these groups. -/
def groupEnv : Env := { exampleEnv with
  GROUP_SERVICE_URL := some "http://group-service:3000"
  groupMembers := fun _ id => match exampleGroups id with
    | some members => .ok ⟨200, .list members⟩
    | none => .ok ⟨404, .list []⟩ }

theorem servesGroups_groupEnv : ServesGroups groupEnv exampleGroups := by
  refine ⟨by decide +kernel, fun n id => ?_⟩
  cases h : exampleGroups id with
  | none => exact ⟨⟨404, .list []⟩, by simp [groupEnv, h], Or.inl rfl⟩
  | some members => exact ⟨⟨200, .list members⟩, by simp [groupEnv, h], by simp, by simp, rfl⟩

/-- The upload of a group icon by a user. -/
def iconRequest (userId : String) : Request :=
  ⟨userId, .upload ⟨some ⟨"image/png", 1, some [0], none⟩, none, none, some .GROUP_ICON, none, none,
    false, none⟩⟩

theorem group_icons_authorised_for_member :
    PassesAuthorization groupEnv World.empty .GROUP_ICON (exampleId 8) ↔
      exampleGroups.IsAdmin (exampleId 8) := by
  have hmember : ¬ exampleGroups.IsAdmin (exampleId 8) := by
    rintro ⟨group, members, hg, hm⟩
    unfold exampleGroups at hg
    split at hg
    · obtain rfl := Option.some.inj hg
      exact absurd hm (by decide +kernel)
    · exact absurd hg (by simp)
  exact (group_icons_authorised groupEnv exampleGroups servesGroups_groupEnv
    (iconRequest (exampleId 8)) (exampleId 8) ⟨"image/png", 1, some [0], none⟩ none none
    (by decide +kernel) (by decide +kernel) World.empty).mpr hmember

/-- The admin of a group is refused the upload of an icon. -/
theorem group_admin_refused :
    ¬ ∀ (env : Env) (groups : Memberships), ServesGroups env groups →
      ∀ (req : Request) (ownerId : String) (file : File) (thumbnailFile : Option File)
        (sharedWith : Option (List String)),
      MediaController.route req =
        .ok (.upload ownerId file .GROUP_ICON thumbnailFile sharedWith) →
      groups req.authenticatedUserId = none →
      ∀ w, PassesAuthorization env w .GROUP_ICON ownerId ↔
        groups.IsAdmin req.authenticatedUserId := by
  intro hall
  have h := hall groupEnv exampleGroups servesGroups_groupEnv (iconRequest (exampleId 7))
    (exampleId 7) ⟨"image/png", 1, some [0], none⟩ none none (by decide +kernel)
    (by decide +kernel) World.empty
  have hadmin : exampleGroups.IsAdmin (exampleId 7) :=
    ⟨exampleId 3, _, if_pos rfl, List.mem_cons_self⟩
  obtain ⟨members, hm, -⟩ := (passes_iff_own_group servesGroups_groupEnv (exampleId 7)).mp
    (h.mpr hadmin)
  have hnone : exampleGroups (exampleId 7) = none := by decide +kernel
  rw [hnone] at hm
  exact absurd hm (by simp)

end WhisprMedia
