import Mathlib.Data.Finmap
import TaiSkeleton.AccessControl.Policy

/-!
# The enforced policies

The body of a policy as the access-control store keeps it, and what each statement of the store
makes of it. The values of its JSON objects are drawn from `υ`, so that two bodies are equal where
their JSON is.
-/

namespace TaiSkeleton.AccessControl

/-- The members of a JSON object by name; `none` is a `null`. -/
abbrev Members (υ : Type) := Finmap fun _ : String => Option υ

/-- `dict.get` -/
def Members.get? {υ : Type} (members : Members υ) (name : String) : Option υ :=
  (members.lookup name).join

/-- `KEY_FINGERPRINT_CLAIM` -/
def keyFingerprintClaim : String := "key_fingerprint"

/-- A row of `access_control_policies` but for its user. -/
structure PolicyBody (υ : Type) where
  scopes : List String
  policyData : Members υ
  condition : Option String
  conditionId : Option String
  conditionKwargs : Option (Members υ)
deriving DecidableEq

/-- The fields that an edit supplies. -/
structure PolicyUpdates (υ : Type) where
  scopes : Option (List String) := none
  policyData : Option (Option (Members υ)) := none
  condition : Option (Option String) := none
  conditionId : Option (Option String) := none
  conditionKwargs : Option (Option (Members υ)) := none
deriving DecidableEq

variable {υ : Type}

/-- `owner_of` -/
def ownerOf (policyData : Members υ) : Option υ := policyData.get? ownerUserIdClaim

/-- The key that a policy is of. -/
def keyOf (policyData : Members υ) : Option υ := policyData.get? keyFingerprintClaim

/-! ## The statements -/

/-- The body that `create_policy` inserts. -/
def createPolicy (scopes : List String) (policyData : Option (Members υ))
    (condition conditionId : Option String) (conditionKwargs : Option (Members υ)) :
    PolicyBody υ where
  scopes := scopes
  policyData := policyData.getD ∅
  condition := condition
  conditionId := conditionId
  conditionKwargs := conditionKwargs

/-- The policy data that `add_user_api_key` hands to `create_policy`. -/
def mintPolicyData (policyData : Option (Members υ)) (keyFingerprint : υ) (owner : Option υ) :
    Members υ :=
  let stamped := (policyData.getD ∅).insert keyFingerprintClaim (some keyFingerprint)
  match owner with
  | none => stamped
  | some owner => stamped.insert ownerUserIdClaim (some owner)

/-- The policy data of an edit: the fingerprint stays the stored one. -/
def editPolicyData (stored new : Members υ) : Members υ :=
  match keyOf stored with
  | none => new.erase keyFingerprintClaim
  | some fingerprint =>
    (new.erase keyFingerprintClaim).insert keyFingerprintClaim (some fingerprint)

/-- `update_policy_fields` on a row that is there. -/
def updatePolicyFields (updates : PolicyUpdates υ) (body : PolicyBody υ) : PolicyBody υ where
  scopes := updates.scopes.getD body.scopes
  policyData := match updates.policyData with
    | none => body.policyData
    | some new => editPolicyData body.policyData (new.getD ∅)
  condition := updates.condition.getD body.condition
  conditionId := updates.conditionId.getD body.conditionId
  conditionKwargs := updates.conditionKwargs.getD body.conditionKwargs

/-- `restore_policy_body` on a row that is there. -/
def restorePolicyBody (target body : PolicyBody υ) : PolicyBody υ :=
  { target with policyData :=
      match keyOf body.policyData with
      | some fingerprint => target.policyData.insert keyFingerprintClaim (some fingerprint)
      | none => target.policyData.erase keyFingerprintClaim }

/-- The row that `_strip_scope_from_policies` leaves of one that lists the scope. -/
def stripScope (scope : String) (body : PolicyBody υ) : PolicyBody υ :=
  { body with scopes := body.scopes.filter (· ≠ scope) }

/-- `RoleDefinition`; `name` is also what a policy points to it by. -/
structure RoleDefinition (υ : Type) where
  name : υ
  scopes : List String
  condition : Option String
  allowAll : Bool
deriving DecidableEq

namespace RoleDefinition

/-- The role may be assigned: it is the admin's, or it carries a condition. -/
def assignable (role : RoleDefinition υ) : Bool := role.allowAll || role.condition.isSome

/-- The policy data with the pointer to the role. -/
def point (role : RoleDefinition υ) (policyData : Members υ) : Members υ :=
  if role.allowAll then policyData.erase rolePointerKey
  else policyData.insert rolePointerKey (some role.name)

/-- What `apply_role` hands to `update_policy_fields`. -/
def updates (role : RoleDefinition υ) (policyData : Members υ) : PolicyUpdates υ where
  scopes := some role.scopes
  policyData := some (some policyData)
  condition := some role.condition
  conditionId := some none
  conditionKwargs := some (some ∅)

/-- What it hands to `create_policy`. -/
def body (role : RoleDefinition υ) (policyData : Members υ) : PolicyBody υ :=
  createPolicy role.scopes (some policyData) role.condition none (some ∅)

end RoleDefinition

/-! ## The key of a body -/

section Key

variable (policyData new : Members υ) (body target : PolicyBody υ)

theorem keyOf_insert (fingerprint : υ) :
    keyOf (policyData.insert keyFingerprintClaim (some fingerprint)) = some fingerprint := by
  simp only [keyOf, Members.get?, Finmap.lookup_insert, Option.join_some]

theorem keyOf_erase : keyOf (policyData.erase keyFingerprintClaim) = none := by
  simp only [keyOf, Members.get?, Finmap.lookup_erase, Option.join_none]

theorem keyOf_mintPolicyData (policyData : Option (Members υ)) (keyFingerprint : υ)
    (owner : Option υ) : keyOf (mintPolicyData policyData keyFingerprint owner) =
      some keyFingerprint := by
  have hne : keyFingerprintClaim ≠ ownerUserIdClaim := by decide
  cases owner with
  | none => exact keyOf_insert _ _
  | some owner =>
    simp only [mintPolicyData, keyOf, Members.get?, Finmap.lookup_insert_of_ne _ hne,
      Finmap.lookup_insert, Option.join_some]

theorem keyOf_editPolicyData : keyOf (editPolicyData policyData new) = keyOf policyData := by
  unfold editPolicyData
  cases h : keyOf policyData with
  | none => exact keyOf_erase _
  | some fingerprint => exact keyOf_insert _ _

/-- An edit leaves a policy its key. -/
theorem keyOf_updatePolicyFields (updates : PolicyUpdates υ) :
    keyOf (updatePolicyFields updates body).policyData = keyOf body.policyData := by
  unfold updatePolicyFields
  split
  · rfl
  · exact keyOf_editPolicyData _ _

/-- So does a rollback. -/
theorem keyOf_restorePolicyBody :
    keyOf (restorePolicyBody target body).policyData = keyOf body.policyData := by
  unfold restorePolicyBody
  cases h : keyOf body.policyData with
  | none => exact keyOf_erase _
  | some fingerprint => exact keyOf_insert _ _

end Key

/-- The target of a rollback carries the key of the live policy, and no other. -/
def CarriesKeyOf (target body : PolicyBody υ) : Prop :=
  target.policyData.lookup keyFingerprintClaim = (keyOf body.policyData).map some

instance [DecidableEq υ] (target body : PolicyBody υ) : Decidable (CarriesKeyOf target body) :=
  inferInstanceAs (Decidable (_ = _))

/-- A rollback to a version of the same key restores the version's body. -/
theorem restorePolicyBody_of_carriesKeyOf {target body : PolicyBody υ}
    (h : CarriesKeyOf target body) : restorePolicyBody target body = target := by
  have hdata : (restorePolicyBody target body).policyData = target.policyData := by
    refine Finmap.ext_lookup fun name => ?_
    unfold CarriesKeyOf at h
    unfold restorePolicyBody
    by_cases hname : name = keyFingerprintClaim
    · subst hname
      rw [h]
      cases keyOf body.policyData with
      | none => exact Finmap.lookup_erase _ _
      | some fingerprint => exact Finmap.lookup_insert _
    · cases keyOf body.policyData with
      | none => exact Finmap.lookup_erase_ne hname
      | some fingerprint => exact Finmap.lookup_insert_of_ne _ hname
  calc restorePolicyBody target body
      = { target with policyData := (restorePolicyBody target body).policyData } := rfl
    _ = target := by rw [hdata]

end TaiSkeleton.AccessControl
