import TaiSkeleton.AccessControl.PolicyBody
import TaiSkeleton.Lib.Run
import TaiSkeleton.Versioning.Operations

/-!
# The owner of a key

The owner of a key is kept twice: on the identity record, which every request is answered from, and
in the policy data. A mint writes both, and each other operation on the key writes the policy data
alone, once with what it is given, once with what the history holds.
-/

namespace TaiSkeleton.AccessControl

open Lib Versioning

/-! ## One user's key -/

/-- What the stores hold under a user id. -/
structure KeyRecord where
  /-- The owner on the identity record. -/
  identity : Option (Option String)
  /-- The row of `access_control_policies`. -/
  policy : Option (PolicyBody JsonValue)
  /-- The `ac_policy` document. -/
  history : Option (Document (PolicyBody JsonValue))

/-- An operation on the key that returns, or raises after its first write. -/
inductive KeyAction where
  /-- `create_api_key`; the policy may fail to be written. -/
  | mint (scopes : List String) (policyData : Option (Members JsonValue))
      (keyFingerprint : String) (owner : Option String) (condition conditionId : Option String)
      (conditionKwargs : Option (Members JsonValue)) (written : Bool)
  /-- `edit_api_key` -/
  | edit (updates : PolicyUpdates JsonValue)
  /-- `rollback_policy` -/
  | rollback (version : ℕ)
  /-- `revoke_api_key`; the identity record is destroyed last. -/
  | revoke (destroyed : Bool)
  | applyRole (role : RoleDefinition JsonValue)
  | setUserDisabled (disabled : Bool)

/-- An operation, and whether it writes to the history in the end. -/
structure KeyStep where
  action : KeyAction
  recorded : Bool

/-- `ac_policy_store().write` -/
def historyWith (body : PolicyBody JsonValue) :
    Option (Document (PolicyBody JsonValue)) → Document (PolicyBody JsonValue)
  | none => .create "ac_policy" "" body
  | some doc => if doc.activeBody = some body then doc else doc.saveVersion body

/-- The policy data that `set_user_disabled` writes. -/
def disabledData (disabled : Bool) (policyData : Members JsonValue) : Members JsonValue :=
  if disabled then policyData.insert "disabled" (some (.bool true))
  else policyData.erase "disabled"

namespace KeyRecord

variable (s : KeyRecord)

/-- A policy is committed, and recorded or not. -/
def commit (body : PolicyBody JsonValue) (recorded : Bool) : KeyRecord :=
  { s with
    policy := some body
    history := if recorded then some (historyWith body s.history) else s.history }

/-- The owner may not be changed. -/
def mayEdit (updates : PolicyUpdates JsonValue) (body : PolicyBody JsonValue) : Bool :=
  match updates.policyData with
  | none => true
  | some new => ownerOf (new.getD ∅) = ownerOf body.policyData

/-- The record after an operation; `none` where it raises before it writes. The refusal of unknown
scopes is left out, so that a step may be given any. -/
def next (step : KeyStep) : Option KeyRecord :=
  match step.action with
  | .mint scopes policyData keyFingerprint owner condition conditionId conditionKwargs written =>
    match s.policy with
    | some _ => none
    | none =>
      let provisioned : KeyRecord := { s with identity := some owner }
      if written then
        some (provisioned.commit (createPolicy scopes
          (some (mintPolicyData policyData (.str keyFingerprint) (owner.map .str))) condition
          conditionId conditionKwargs) step.recorded)
      else some provisioned
  | .edit updates =>
    match s.policy with
    | none => none
    | some body =>
      if mayEdit updates body then some (s.commit (updatePolicyFields updates body) step.recorded)
      else none
  | .rollback version =>
    match s.history, s.policy with
    | some doc, some body =>
      match doc.bodyAt version with
      | none => none
      | some target => some { s with
          policy := some (restorePolicyBody target body)
          history := some (if step.recorded then doc.rollback version else doc) }
    | _, _ => none
  | .revoke destroyed =>
    match s.identity with
    | none => none
    | some _ => some { s with policy := none, identity := if destroyed then none else s.identity }
  | .applyRole role =>
    if role.assignable then
      match s.policy with
      | none => some (s.commit (role.body (role.point ∅)) step.recorded)
      | some body => some (s.commit
          (updatePolicyFields (role.updates (role.point body.policyData)) body) step.recorded)
    else none
  | .setUserDisabled disabled =>
    match s.policy with
    | none => none
    | some body => some (s.commit (updatePolicyFields
        { policyData := some (some (disabledData disabled body.policyData)) } body) step.recorded)

/-- The owner of a live key is the same in both homes. -/
def Agrees : Prop :=
  ∀ owner body, s.identity = some owner → s.policy = some body →
    owner.map .str = ownerOf body.policyData

end KeyRecord

/-- `is_admin_policy` -/
def isAdminPolicy (policy : PolicyBody JsonValue) (ownerClaim : Option JsonValue) : Bool :=
  policy.scopes.contains "*" && policy.condition.isNone && policy.conditionId.isNone &&
    ownerClaim.isNone

/-- The operations on the key of a user that nothing is known of, one after another. -/
def keyOperations : System KeyRecord KeyStep where
  init s := s = ⟨none, none, none⟩
  step s step s' := s.next step = some s'

/-- A mint without an owner is given policy data without one, a rollback goes to a version with the
owner of the identity record, and a role that finds no policy finds no identity record with an
owner. -/
def OwnerKept (s : KeyRecord) (step : KeyStep) : Prop :=
  match step.action with
  | .mint _ policyData _ owner _ _ _ written =>
    written = true → owner = none → ownerOf (policyData.getD ∅) = none
  | .rollback version => ∀ owner ∈ s.identity, ∀ doc ∈ s.history, ∀ target ∈ doc.bodyAt version,
    ownerOf target.policyData = owner.map .str
  | .applyRole _ => s.policy = none → ∀ owner ∈ s.identity, owner = none
  | _ => True

/-! ## The owner in the policy data -/

section Owner

variable {υ : Type} {name : String} (policyData new : Members υ)

theorem ownerOf_insert_of_ne (h : name ≠ ownerUserIdClaim) (value : Option υ) :
    ownerOf (policyData.insert name value) = ownerOf policyData := by
  unfold ownerOf Members.get?
  rw [Finmap.lookup_insert_of_ne _ h.symm]

theorem ownerOf_erase_of_ne (h : name ≠ ownerUserIdClaim) :
    ownerOf (policyData.erase name) = ownerOf policyData := by
  unfold ownerOf Members.get?
  rw [Finmap.lookup_erase_ne h.symm]

theorem ownerOf_mintPolicyData (given : Option (Members υ)) (keyFingerprint : υ)
    (owner : Option υ) : ownerOf (mintPolicyData given keyFingerprint owner) =
      owner.or (ownerOf (given.getD ∅)) := by
  unfold mintPolicyData
  cases owner with
  | none => exact ownerOf_insert_of_ne _ (by decide) _
  | some owner =>
    unfold ownerOf Members.get?
    rw [Finmap.lookup_insert]
    rfl

theorem ownerOf_editPolicyData : ownerOf (editPolicyData policyData new) = ownerOf new := by
  have hne : keyFingerprintClaim ≠ ownerUserIdClaim := by decide
  unfold editPolicyData
  cases keyOf policyData with
  | none => exact ownerOf_erase_of_ne _ hne
  | some fingerprint =>
    exact (ownerOf_insert_of_ne _ hne _).trans (ownerOf_erase_of_ne _ hne)

theorem ownerOf_restorePolicyBody (target body : PolicyBody υ) :
    ownerOf (restorePolicyBody target body).policyData = ownerOf target.policyData := by
  have hne : keyFingerprintClaim ≠ ownerUserIdClaim := by decide
  unfold restorePolicyBody
  cases keyOf body.policyData with
  | none => exact ownerOf_erase_of_ne _ hne
  | some fingerprint => exact ownerOf_insert_of_ne _ hne _

theorem ownerOf_point (role : RoleDefinition υ) :
    ownerOf (role.point policyData) = ownerOf policyData := by
  have hne : rolePointerKey ≠ ownerUserIdClaim := by decide
  unfold RoleDefinition.point
  split_ifs
  · exact ownerOf_erase_of_ne _ hne
  · exact ownerOf_insert_of_ne _ hne _

theorem ownerOf_disabledData (disabled : Bool) (policyData : Members JsonValue) :
    ownerOf (disabledData disabled policyData) = ownerOf policyData := by
  have hne : "disabled" ≠ ownerUserIdClaim := by decide
  unfold disabledData
  split_ifs
  · exact ownerOf_insert_of_ne _ hne _
  · exact ownerOf_erase_of_ne _ hne

/-- An update that is given policy data writes the owner in it. -/
theorem ownerOf_updatePolicyFields (updates : PolicyUpdates υ) (body : PolicyBody υ) :
    ownerOf (updatePolicyFields updates body).policyData =
      updates.policyData.elim (ownerOf body.policyData) fun new => ownerOf (new.getD ∅) := by
  unfold updatePolicyFields
  cases updates.policyData with
  | none => rfl
  | some new => exact ownerOf_editPolicyData _ _

end Owner

/-! ## One operation -/

variable {s s' : KeyRecord} {step : KeyStep} {body : PolicyBody JsonValue} {recorded : Bool}

theorem agrees_iff_of_policy (hpolicy : s.policy = some body) : s.Agrees ↔
    ∀ owner ∈ s.identity, owner.map .str = ownerOf body.policyData := by
  constructor
  · exact fun h owner hidentity => h owner body hidentity hpolicy
  · intro h owner body' hidentity hpolicy'
    rw [hpolicy] at hpolicy'
    cases hpolicy'
    exact h owner hidentity

theorem agrees_commit : (s.commit body recorded).Agrees ↔
    ∀ owner ∈ s.identity, owner.map .str = ownerOf body.policyData :=
  agrees_iff_of_policy rfl

theorem KeyRecord.Agrees.commit (h : s.Agrees) (hpolicy : s.policy = some body)
    {body' : PolicyBody JsonValue} (hsame : ownerOf body'.policyData = ownerOf body.policyData) :
    (s.commit body' recorded).Agrees := by
  rw [agrees_commit, hsame]
  exact fun owner hidentity => h owner body hidentity hpolicy

theorem KeyRecord.Agrees.of_policy_eq_none (h : s.policy = none) : s.Agrees := by
  intro owner body _ hpolicy
  rw [h] at hpolicy
  cases hpolicy

/-- The homes agree after an operation if and only if it keeps the owner. -/
theorem agrees_iff (h : s.Agrees) (hstep : s.next step = some s') :
    s'.Agrees ↔ OwnerKept s step := by
  obtain ⟨action, recorded⟩ := step
  unfold KeyRecord.next at hstep
  unfold OwnerKept
  cases action with
  | mint scopes policyData keyFingerprint owner condition conditionId conditionKwargs written =>
    dsimp only at hstep ⊢
    cases hpolicy : s.policy with
    | some body =>
      rw [hpolicy] at hstep
      cases hstep
    | none =>
      rw [hpolicy] at hstep
      cases written with
      | false =>
        cases hstep
        exact iff_of_true (.of_policy_eq_none rfl) (fun h => by cases h)
      | true =>
        cases hstep
        rw [agrees_commit]
        show (∀ owner' ∈ some owner, owner'.map Json.str = ownerOf (mintPolicyData policyData
          (.str keyFingerprint) (owner.map .str))) ↔ _
        rw [ownerOf_mintPolicyData]
        cases owner with
        | none => simp [eq_comm]
        | some owner => simp
  | edit updates =>
    dsimp only at hstep ⊢
    cases hpolicy : s.policy with
    | none =>
      rw [hpolicy] at hstep
      cases hstep
    | some body =>
      rw [hpolicy] at hstep
      dsimp only at hstep
      split_ifs at hstep with hedit
      cases hstep
      refine iff_of_true (h.commit hpolicy ?_) trivial
      rw [ownerOf_updatePolicyFields]
      unfold KeyRecord.mayEdit at hedit
      cases hdata : updates.policyData with
      | none => rfl
      | some new =>
        rw [hdata] at hedit
        exact of_decide_eq_true hedit
  | rollback version =>
    dsimp only at hstep ⊢
    cases hhistory : s.history with
    | none =>
      rw [hhistory] at hstep
      cases hstep
    | some doc =>
      cases hpolicy : s.policy with
      | none =>
        rw [hhistory, hpolicy] at hstep
        cases hstep
      | some body =>
        rw [hhistory, hpolicy] at hstep
        dsimp only at hstep
        cases htarget : doc.bodyAt version with
        | none =>
          rw [htarget] at hstep
          cases hstep
        | some target =>
          rw [htarget] at hstep
          cases hstep
          refine (agrees_iff_of_policy rfl).trans ?_
          rw [ownerOf_restorePolicyBody]
          simp [htarget, eq_comm]
  | revoke destroyed =>
    dsimp only at hstep ⊢
    cases hidentity : s.identity with
    | none =>
      rw [hidentity] at hstep
      cases hstep
    | some owner =>
      rw [hidentity] at hstep
      cases hstep
      exact iff_of_true (.of_policy_eq_none rfl) trivial
  | applyRole role =>
    dsimp only at hstep ⊢
    split_ifs at hstep with hassignable
    cases hpolicy : s.policy with
    | none =>
      rw [hpolicy] at hstep
      cases hstep
      have howner : ownerOf (role.body (role.point ∅)).policyData = none :=
        ownerOf_point ∅ role
      rw [agrees_commit, howner]
      simp
    | some body =>
      rw [hpolicy] at hstep
      cases hstep
      refine iff_of_true (h.commit hpolicy ?_) (fun h => by cases h)
      rw [ownerOf_updatePolicyFields]
      exact ownerOf_point _ _
  | setUserDisabled disabled =>
    dsimp only at hstep ⊢
    cases hpolicy : s.policy with
    | none =>
      rw [hpolicy] at hstep
      cases hstep
    | some body =>
      rw [hpolicy] at hstep
      cases hstep
      refine iff_of_true (h.commit hpolicy ?_) trivial
      rw [ownerOf_updatePolicyFields]
      exact ownerOf_disabledData _ _

/-! ## Any operations, one after another -/

/-- No key with an owner on its identity record is the admin. -/
def NoOwnedAdmin (s : KeyRecord) : Prop :=
  ∀ owner body, s.identity = some (some owner) → s.policy = some body →
    isAdminPolicy body (ownerOf body.policyData) = false

theorem noOwnedAdmin_of_agrees (h : s.Agrees) : NoOwnedAdmin s := by
  intro owner body hidentity hpolicy
  rw [← h _ _ hidentity hpolicy]
  unfold isAdminPolicy
  exact Bool.and_false _

/-- Each operation that keeps the owner leaves the homes in agreement, and no other does. Where all
do, no key with an owner is the admin. -/
theorem owner_kept (s : KeyRecord) :
    (∀ (step : KeyStep) (s' : KeyRecord), s.Agrees → s.next step = some s' →
      (s'.Agrees ↔ OwnerKept s step)) ∧
    ((keyOperations.when OwnerKept).Reachable s → s.Agrees ∧ NoOwnedAdmin s) := by
  refine ⟨fun step s' h hstep => agrees_iff h hstep, fun hreachable => ?_⟩
  have hagrees : s.Agrees := by
    refine hreachable.invariant ?_ ?_
    · rintro s rfl
      exact .of_policy_eq_none rfl
    · intro s step s' hs hstep
      exact (agrees_iff hs hstep.2).mpr hstep.1
  exact ⟨hagrees, noOwnedAdmin_of_agrees hagrees⟩

/-- A mint without policy data. -/
def plainMint (keyFingerprint : String) (owner : Option String) : KeyStep where
  action := .mint ["*"] none keyFingerprint owner none none none true
  recorded := true

/-- A key is minted with an owner, and its user is disabled. -/
theorem owned_key_agrees : ∃ s : KeyRecord, s.identity = some (some "alice") ∧
    (s.policy.map fun body => ownerOf body.policyData) = some (some (.str "alice")) ∧
    s.Agrees ∧ NoOwnedAdmin s := by
  have hfirst : (keyOperations.when OwnerKept).Reachable ⟨none, none, none⟩ := .of_init rfl
  have hmint := hfirst.take (plainMint "k" (some "alice")) ⟨(fun _ h => by cases h), rfl⟩
  have hdisabled := hmint.take ⟨.setUserDisabled true, true⟩ ⟨trivial, rfl⟩
  obtain ⟨hagrees, hadmin⟩ := (owner_kept _).2 hdisabled
  exact ⟨_, rfl, by decide +kernel, hagrees, hadmin⟩

/-- The identity record has no owner, and the policy data has one. -/
def storesOwner (s : KeyRecord) : Bool :=
  s.identity == some none && s.policy.any fun body => (ownerOf body.policyData).isSome

/-- The identity record has an owner, and the policy is the admin's. -/
def ownedAdmin (s : KeyRecord) : Bool :=
  s.identity.any Option.isSome && s.policy.any fun body =>
    isAdminPolicy body (ownerOf body.policyData)

theorem not_agrees_of_storesOwner (h : storesOwner s = true) : ¬ s.Agrees := by
  intro hagrees
  unfold storesOwner at h
  rw [Bool.and_eq_true, beq_iff_eq, Option.any_eq_true] at h
  obtain ⟨hidentity, body, hpolicy, howner⟩ := h
  rw [← hagrees none body hidentity hpolicy] at howner
  cases howner

theorem not_noOwnedAdmin_of_ownedAdmin (h : ownedAdmin s = true) : ¬ NoOwnedAdmin s := by
  intro hadmin
  unfold ownedAdmin at h
  rw [Bool.and_eq_true, Option.any_eq_true, Option.any_eq_true] at h
  obtain ⟨⟨owner, hidentity, howner⟩, body, hpolicy, his⟩ := h
  obtain ⟨owner, rfl⟩ := Option.isSome_iff_exists.mp howner
  rw [hadmin owner body hidentity hpolicy] at his
  cases his

/-- An unowned mint that is given an owner in its policy data, and a rollback behind a second mint
to the version of the first. -/
theorem owner_drifts :
    (∃ s, keyOperations.Reachable s ∧ ¬ s.Agrees) ∧
      ∃ s, keyOperations.Reachable s ∧ ¬ s.Agrees ∧ ¬ NoOwnedAdmin s := by
  constructor
  · obtain ⟨s, hs, hp⟩ := System.Reachable.of_foldlM (S := keyOperations)
      (f := KeyRecord.next) (s := ⟨none, none, none⟩) (p := storesOwner)
      (l := [⟨.mint ["*"] (some (Finmap.singleton ownerUserIdClaim (some (.str "alice")))) "k" none
        none none none true, true⟩])
      (fun _ _ _ h => h) rfl (by decide +kernel)
    exact ⟨s, hs, not_agrees_of_storesOwner hp⟩
  · obtain ⟨s, hs, hp⟩ := System.Reachable.of_foldlM (S := keyOperations)
      (f := KeyRecord.next) (s := ⟨none, none, none⟩) (p := ownedAdmin)
      (l := [plainMint "k" none, ⟨.revoke true, false⟩, plainMint "l" (some "alice"),
        ⟨.rollback 1, true⟩])
      (fun _ _ _ h => h) rfl (by decide +kernel)
    have hadmin := not_noOwnedAdmin_of_ownedAdmin hp
    exact ⟨s, hs, fun h => hadmin (noOwnedAdmin_of_agrees h), hadmin⟩

end TaiSkeleton.AccessControl
