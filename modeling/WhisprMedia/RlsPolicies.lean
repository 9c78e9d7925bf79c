import WhisprMedia.MediaService
import WhisprMedia.SqlLogic
import Mathlib.Data.List.ReduceOption

/-! Row security on `media` after all migrations, and its agreement with the access check of the
service. -/
namespace WhisprMedia
open MediaService Sql

/-- The columns of a row that the policies read; a uuid is the text that Postgres prints. -/
structure RlsRow where
  ownerId : String
  context : String
  sharedWith : Option (List (Option String))

/-- `current_setting('app.current_user_id', TRUE)::UUID`. -/
def currentUserId (env : Env) (setting : Option String) : Option String := setting.bind env.uuidIn

section Migrations
variable (env : Env) (setting : Option String)

/-- `"owner_id" = current_setting('app.current_user_id', TRUE)::UUID`. -/
def ownerIsCurrentUser (row : RlsRow) : Truth :=
  eq (some row.ownerId) (currentUserId env setting)

/-- `"context" IN ('avatar', 'group_icon')`. -/
def contextIsPublic (row : RlsRow) : Truth :=
  isIn (some row.context) [some "avatar", some "group_icon"]

def CreateMediaTable1742000000000 : List (Statement RlsRow) := [
  .enableRowLevelSecurity,
  -- without FOR, a policy applies to all commands
  .createPolicy ⟨"media_owner_policy", .all, ownerIsCurrentUser env setting⟩]

def AddPublicContextRlsSelectPolicy1743000000000 : List (Statement RlsRow) := [
  .dropPolicyIfExists "media_owner_policy",
  .createPolicy ⟨"media_owner_write_policy", .all, ownerIsCurrentUser env setting⟩,
  .createPolicy ⟨"media_public_context_select_policy", .select, fun row =>
    Truth.or (contextIsPublic row) (ownerIsCurrentUser env setting row)⟩]

def AddSharedWithToMedia1743200000000 : List (Statement RlsRow) := [
  .dropPolicyIfExists "media_public_context_select_policy",
  .createPolicy ⟨"media_public_context_select_policy", .select, fun row =>
    Truth.or (Truth.or (contextIsPublic row) (ownerIsCurrentUser env setting row))
      (Truth.and (isNotNull row.sharedWith) (eqAny (currentUserId env setting) row.sharedWith))⟩]

/-- The migrations in their order; those left out say nothing about row security on `media`. -/
def migrations : List (Statement RlsRow) :=
  CreateMediaTable1742000000000 env setting ++
    AddPublicContextRlsSelectPolicy1743000000000 env setting ++
    AddSharedWithToMedia1743200000000 env setting

/-- Row security on `media` once the migrations have run. -/
def mediaSecurity : RowSecurity RlsRow := (RowSecurity.none.run (migrations env setting)).getD .none

theorem mediaSecurity_eq : RowSecurity.none.run (migrations env setting) = some {
    enabled := true
    policies := [
      ⟨"media_owner_write_policy", .all, ownerIsCurrentUser env setting⟩,
      ⟨"media_public_context_select_policy", .select, fun row =>
        Truth.or (Truth.or (contextIsPublic row) (ownerIsCurrentUser env setting row))
          (Truth.and (isNotNull row.sharedWith)
            (eqAny (currentUserId env setting) row.sharedWith))⟩] } := rfl

end Migrations

variable {env : Env} {u : String}

theorem contextIsPublic_eq_true {row : RlsRow} :
    contextIsPublic row = some true ↔ row.context ∈ PUBLIC_READABLE_CONTEXTS := by
  simp [contextIsPublic, isIn_eq_true, PUBLIC_READABLE_CONTEXTS, MediaContext.value]

/-- The owner under whatever spelling the setting has. -/
theorem ownerIsCurrentUser_iff {user : String} (hu : env.uuidIn user = some u) {row : RlsRow} :
    ownerIsCurrentUser env (some user) row = some true ↔ row.ownerId = u := by
  have hcur : currentUserId env (some user) = some u := hu
  rw [ownerIsCurrentUser, hcur, eq_eq_true]
  constructor
  · rintro ⟨x, ho, hx⟩
    exact Option.some.inj (ho.trans hx.symm)
  · rintro rfl
    exact ⟨_, rfl, rfl⟩

theorem ownerIsCurrentUser_eq_true (hu : env.uuidIn u = some u) {row : RlsRow} :
    ownerIsCurrentUser env (some u) row = some true ↔ row.ownerId = u :=
  ownerIsCurrentUser_iff hu

/-- UPDATE reaches the rows of the user alone. -/
theorem updatable_iff_owner {user : String} (hu : env.uuidIn user = some u) {row : RlsRow} :
    (mediaSecurity env (some user)).updatable row = true ↔ row.ownerId = u := by
  have howner : ownerIsCurrentUser env (some user) row = some true ↔ row.ownerId = u :=
    ownerIsCurrentUser_iff hu
  unfold mediaSecurity
  rw [mediaSecurity_eq, Option.getD_some, RowSecurity.updatable_iff rfl, RowSecurity.visible_iff rfl]
  simp only [List.mem_cons, List.not_mem_nil, or_false, exists_eq_or_imp, exists_eq_left,
    reduceCtorEq, or_true, true_and, or_eq_true, howner]
  tauto

/-- What the policies let a user see. -/
theorem visible_iff (hu : env.uuidIn u = some u) {row : RlsRow} :
    (mediaSecurity env (some u)).visible row = true ↔
      row.context ∈ PUBLIC_READABLE_CONTEXTS ∨ row.ownerId = u ∨
        ∃ l, row.sharedWith = some l ∧ some u ∈ l := by
  have hcur : currentUserId env (some u) = some u := hu
  unfold mediaSecurity
  rw [mediaSecurity_eq, Option.getD_some, RowSecurity.visible_iff rfl]
  simp only [List.mem_cons, List.not_mem_nil, or_false, exists_eq_or_imp, exists_eq_left,
    reduceCtorEq, or_true, true_and, or_eq_true, and_eq_true, contextIsPublic_eq_true,
    ownerIsCurrentUser_eq_true hu, eqAny_eq_true, hcur, Option.some.injEq]
  constructor
  · rintro (ho | (hc | ho) | ⟨-, x, l, rfl, hl, hmem⟩)
    · exact Or.inr (Or.inl ho)
    · exact Or.inl hc
    · exact Or.inr (Or.inl ho)
    · exact Or.inr (Or.inr ⟨l, hl, hmem⟩)
  · rintro (hc | ho | ⟨l, hl, hmem⟩)
    · exact Or.inr (Or.inl (Or.inl hc))
    · exact Or.inl ho
    · exact Or.inr (Or.inr ⟨by simp [isNotNull, hl], u, l, rfl, hl, hmem⟩)

/-- The policies show a row to a user exactly when the service's check lets the user read it; a
NULL in the array is no user. -/
theorem visible_iff_enforceReadAccess (env : Env) (row : RlsRow) (u : String)
    (hu : env.uuidIn u = some u) :
    (mediaSecurity env (some u)).visible row = true ↔
      enforceReadAccess row.context row.ownerId (row.sharedWith.map List.reduceOption) u =
        .ok () := by
  rw [visible_iff hu, enforceReadAccess_iff]
  cases row.sharedWith with
  | none => simp
  | some l => simp [List.reduceOption_mem_iff]

/-- A shared row with a NULL in its array. -/
theorem visible_iff_enforceReadAccess_of_shared :
    (mediaSecurity exampleEnv (some (exampleId 2))).visible
        ⟨exampleId 1, "message", some [none, some (exampleId 2)]⟩ = true ↔
      enforceReadAccess "message" (exampleId 1) (some [exampleId 2]) (exampleId 2) = .ok () :=
  visible_iff_enforceReadAccess exampleEnv
    ⟨exampleId 1, "message", some [none, some (exampleId 2)]⟩ (exampleId 2) (exampleId_canonical 2)

/-- The filter of the model's lookups is this row security. -/
theorem rlsSelect_eq_visible (hu : env.uuidIn u = some u) (m : Media) :
    rlsSelect u m =
      (mediaSecurity env (some u)).visible ⟨m.ownerId, m.context, m.sharedWith.map (·.map some)⟩ := by
  have hshared : (m.sharedWith.getD []).contains u = true ↔
      ∃ l, m.sharedWith.map (·.map some) = some l ∧ some u ∈ l := by
    cases m.sharedWith <;> simp
  rw [Bool.eq_iff_iff, visible_iff hu, ← hshared]
  simp only [rlsSelect, Bool.or_eq_true, decide_eq_true_eq, PUBLIC_READABLE_CONTEXTS,
    MediaContext.value, List.mem_cons, List.not_mem_nil, or_false]
  tauto

end WhisprMedia
