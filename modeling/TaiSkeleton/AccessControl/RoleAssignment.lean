import TaiSkeleton.AccessControl.PolicyBody
import TaiSkeleton.Lib.Run
import TaiSkeleton.Versioning.Operations

/-!
# Roles and their holders

The roles are documents of the versioned store, and a policy points to its role by name in the
access-control store. Each call of a store is one step, and other calls take theirs between two
steps of one operation.
-/

namespace TaiSkeleton.AccessControl

open Lib Versioning

/-- A value of the policy data: a string, a boolean, or any other by its JSON text. -/
inductive Datum where
  | str (s : String)
  | bool (b : Bool)
  | other (json : String)
deriving DecidableEq

/-- What `->>` makes of a value. -/
def Datum.text : Datum → String
  | str s => s
  | bool true => "true"
  | bool false => "false"
  | other json => json

/-- The role pointer, as `count_policies_with_role` reads it. -/
def pointerOf (policyData : Members Datum) : Option String :=
  (policyData.get? rolePointerKey).map Datum.text

/-! ## Role bodies -/

/-- `RESERVED_ADMIN_ROLE` -/
def reservedAdminRole : String := "admin"

def editorJq : String :=
  "(((.request.path | startswith(\"/api/auth\")) | not) " ++
    "or (.request.path | startswith(\"/api/auth/api-keys\")) " ++
    "or (.request.path == \"/api/auth/tokens-payload\") " ++
    "or (.request.path == \"/api/auth/capabilities\") " ++
    "or (.request.path == \"/api/auth/me\") " ++
    "or (.request.path == \"/api/auth/claim-links\") " ++
    "or ((.request.path == \"/api/auth/scopes\") and (.request.method == \"GET\")) " ++
    "or (.request.path == \"/api/auth/logout\") " ++
    "or (.request.path == \"/api/auth/users/me/password\"))"

def viewerJq : String :=
  "((((.request.path | startswith(\"/api/auth/api-keys\")) " ++
    "or (.request.path == \"/api/auth/logout\") " ++
    "or (.request.path == \"/api/auth/users/me/password\") " ++
    "or (.request.path == \"/api/auth/claim-links\") " ++
    "or (.request.method | IN(\"GET\",\"HEAD\",\"OPTIONS\"))) " ++
    "and (((.request.path | startswith(\"/api/auth\")) | not) " ++
    "or (.request.path | startswith(\"/api/auth/api-keys\")) " ++
    "or (.request.path == \"/api/auth/tokens-payload\") " ++
    "or (.request.path == \"/api/auth/capabilities\") " ++
    "or (.request.path == \"/api/auth/me\") " ++
    "or (.request.path == \"/api/auth/claim-links\") " ++
    "or ((.request.path == \"/api/auth/scopes\") and (.request.method == \"GET\")) " ++
    "or (.request.path == \"/api/auth/logout\") " ++
    "or (.request.path == \"/api/auth/users/me/password\"))))"

/-- `_BASE_TIER_CONDITIONS` -/
def baseTierCondition : String → Option String
  | "editor" => some editorJq
  | "viewer" => some viewerJq
  | _ => none

/-- The level of a grant. -/
inductive GrantLevel where
  | none
  | read
  | write
deriving DecidableEq

/-- The body of a role document. -/
structure RoleBody where
  name : String
  description : String
  baseTier : Option String
  scopes : List String
  grants : List (String × GrantLevel)
  condition : Option String
  allowAll : Bool
deriving DecidableEq

/-- The role as `apply_role` writes it, under the name that it was assigned by. -/
def RoleBody.definition (role : RoleBody) (roleName : String) : RoleDefinition Datum where
  name := .str roleName
  scopes := role.scopes
  condition := role.condition
  allowAll := role.allowAll

/-- `_resolved_create`; `none` where it raises. -/
def resolvedCreate (grantable : String → Bool) (name description baseTier : String)
    (grants : List (String × GrantLevel)) : Option RoleBody :=
  if name = reservedAdminRole then none
  else
    match baseTierCondition baseTier with
    | none => none
    | some condition =>
      if grants.all fun grant => grantable grant.1 then
        some
          { name, description, baseTier := some baseTier, scopes := ["*"], grants
            condition := some condition, allowAll := false }
      else none

/-- The edit of `update_role`; `none` where it raises. -/
def updatedRole (grantable : String → Bool) (grants : Option (List (String × GrantLevel)))
    (description : Option String) (role : RoleBody) : Option RoleBody :=
  if grants.all fun grants => grants.all fun grant => grantable grant.1 then
    if role.allowAll then none
    else some { role with
      grants := grants.getD role.grants
      description := description.getD role.description }
  else none

/-! ## The stores and the calls -/

/-- A role document; no two ever have one `incarnation`. -/
structure RoleDoc where
  incarnation : ℕ
  doc : Document RoleBody
deriving DecidableEq

/-- The operations; `owned` are the keys of the user that `remove_policy` finds. -/
inductive RoleRequest where
  | createRole (name description baseTier : String) (grants : List (String × GrantLevel))
  | updateRole (name : String) (grants : Option (List (String × GrantLevel)))
      (description : Option String)
  | rollbackRole (name : String) (version : ℕ)
  | deleteRole (name : String)
  | applyRole (user roleName : String)
  | setUserDisabled (user : String) (disabled : Bool)
  | removePolicy (user : String) (owned : List String)
  | rollbackPolicy (user : String) (version : ℕ)

/-- Where an operation stands. -/
inductive RoleTask where
  | calling (request : RoleRequest)
  /-- `delete_role` has found no holder. -/
  | deleting (name : String)
  /-- `apply_role` has read the role. -/
  | assigning (user roleName : String) (role : RoleBody)
  /-- It has read the policy data. -/
  | writing (user roleName : String) (role : RoleBody) (policyData : Members Datum)
  /-- It has found no row. -/
  | inserting (user roleName : String) (role : RoleBody) (policyData : Members Datum)
  /-- `set_user_disabled` has read the policy data. -/
  | marking (user : String) (policyData : Members Datum)
  | removing (user : String) (owned : List String)
  /-- `rollback_policy` has read its version. -/
  | restoring (user : String) (version : ℕ) (target : PolicyBody Datum)
  | repointing (user : String) (version : ℕ)
  /-- A committed body is to be written to the history of the user. -/
  | recording (user : String) (body : PolicyBody Datum)
  | founding (user : String) (body : PolicyBody Datum)
  | saving (user : String) (body : PolicyBody Datum)

structure RoleWorld where
  roles : String → Option RoleDoc
  nextRole : ℕ
  policies : Finmap fun _ : String => PolicyBody Datum
  history : String → Option (Document (PolicyBody Datum))
  /-- Whom `apply_role` has assigned which role, and in which incarnation. -/
  assigned : List (String × String × ℕ)
  tasks : Finmap fun _ : ℕ => RoleTask

/-- An operation is called, takes its next step, or fails. -/
inductive RoleLabel where
  | call (n : ℕ) (request : RoleRequest)
  | step (n : ℕ)
  | fail (n : ℕ)

namespace RoleWorld

variable (grantable : String → Bool) (s : RoleWorld)

def goOn (n : ℕ) (task : RoleTask) : RoleWorld := { s with tasks := s.tasks.insert n task }

def stop (n : ℕ) : RoleWorld := { s with tasks := s.tasks.erase n }

def setRole (name : String) (role : Option RoleDoc) : RoleWorld :=
  { s with roles := Function.update s.roles name role }

def setPolicy (user : String) (body : PolicyBody Datum) : RoleWorld :=
  { s with policies := s.policies.insert user body }

def setHistory (user : String) (doc : Document (PolicyBody Datum)) : RoleWorld :=
  { s with history := Function.update s.history user (some doc) }

/-- The users whose policies point to the role. -/
def holders (name : String) : Finset String :=
  s.policies.keys.filter fun user =>
    ((s.policies.lookup user).bind fun body => pointerOf body.policyData) = some name

/-- The role as it is now has been assigned to the user. -/
def holds (user name : String) : Bool :=
  (s.roles name).any fun role => (user, name, role.incarnation) ∈ s.assigned

/-- The role of a policy that `apply_role` has written. -/
def assign (user roleName : String) : RoleWorld :=
  match s.roles roleName with
  | none => s
  | some role => { s with assigned := (user, roleName, role.incarnation) :: s.assigned }

/-- `apply_role` has committed a body. -/
def applied (n : ℕ) (user roleName : String) (role : RoleBody) (body : PolicyBody Datum) :
    RoleWorld :=
  let committed := (s.setPolicy user body).goOn n (.recording user body)
  if role.allowAll then committed else committed.assign user roleName

/-- The first step of an operation. -/
def begin (n : ℕ) : RoleRequest → RoleWorld
  | .createRole name description baseTier grants =>
    match resolvedCreate grantable name description baseTier grants with
    | none => s.stop n
    | some body =>
      match s.roles name with
      | some _ => s.stop n
      | none =>
        { s.setRole name (some ⟨s.nextRole, Document.create "role" name body⟩) with
          nextRole := s.nextRole + 1 }.stop n
  | .updateRole name grants description =>
    if name = reservedAdminRole then s.stop n
    else
      match s.roles name with
      | none => s.stop n
      | some role =>
        match role.doc.activeBody.bind (updatedRole grantable grants description) with
        | none => s.stop n
        | some body =>
          (s.setRole name (some { role with doc := role.doc.saveVersion body })).stop n
  | .rollbackRole name version =>
    if name = reservedAdminRole then s.stop n
    else
      match s.roles name with
      | none => s.stop n
      | some role =>
        match role.doc.bodyAt version with
        | none => s.stop n
        | some _ => (s.setRole name (some { role with doc := role.doc.rollback version })).stop n
  | .deleteRole name =>
    if name = reservedAdminRole then s.stop n
    else if s.holders name = ∅ then s.goOn n (.deleting name)
    else s.stop n
  | .applyRole user roleName =>
    match (s.roles roleName).bind fun role => role.doc.activeBody with
    | none => s.stop n
    | some role =>
      if (role.definition roleName).assignable then s.goOn n (.assigning user roleName role)
      else s.stop n
  | .setUserDisabled user disabled =>
    match s.policies.lookup user with
    | none => s.stop n
    | some body =>
      s.goOn n (.marking user
        (if disabled then body.policyData.insert "disabled" (some (.bool true))
        else body.policyData.erase "disabled"))
  | .removePolicy user owned => s.goOn n (.removing user owned)
  | .rollbackPolicy user version =>
    match (s.history user).bind fun doc => doc.bodyAt version with
    | none => s.stop n
    | some target => s.goOn n (.restoring user version target)

def stepTask (n : ℕ) : RoleTask → RoleWorld
  | .calling request => s.begin grantable n request
  | .deleting name => (s.setRole name none).stop n
  | .assigning user roleName role =>
    let policyData := ((s.policies.lookup user).map PolicyBody.policyData).getD ∅
    s.goOn n (.writing user roleName role ((role.definition roleName).point policyData))
  | .writing user roleName role policyData =>
    match s.policies.lookup user with
    | none => s.goOn n (.inserting user roleName role policyData)
    | some body =>
      s.applied n user roleName role
        (updatePolicyFields ((role.definition roleName).updates policyData) body)
  | .inserting user roleName role policyData =>
    match s.policies.lookup user with
    | some _ => s.stop n
    | none => s.applied n user roleName role ((role.definition roleName).body policyData)
  | .marking user policyData =>
    match s.policies.lookup user with
    | none => s.stop n
    | some body =>
      let committed := updatePolicyFields { policyData := some (some policyData) } body
      (s.setPolicy user committed).goOn n (.recording user committed)
  | .removing user [] => { s with policies := s.policies.erase user }.stop n
  | .removing user (key :: owned) =>
    { s with policies := s.policies.erase key }.goOn n (.removing user owned)
  | .restoring user version target =>
    match s.policies.lookup user with
    | none => s.stop n
    | some body =>
      (s.setPolicy user (restorePolicyBody target body)).goOn n (.repointing user version)
  | .repointing user version =>
    match s.history user with
    | none => s.stop n
    | some doc => (s.setHistory user (doc.rollback version)).stop n
  | .recording user body =>
    match (s.history user).bind Document.activeBody with
    | none => s.goOn n (.founding user body)
    | some active => if active = body then s.stop n else s.goOn n (.saving user body)
  | .founding user body =>
    match s.history user with
    | some _ => s.stop n
    | none => (s.setHistory user (Document.create "ac_policy" user body)).stop n
  | .saving user body =>
    match s.history user with
    | none => s.stop n
    | some doc => (s.setHistory user (doc.saveVersion body)).stop n

def next : RoleLabel → Option RoleWorld
  | .call n request =>
    match s.tasks.lookup n with
    | none => some (s.goOn n (.calling request))
    | some _ => none
  | .step n => (s.tasks.lookup n).map (s.stepTask grantable n)
  | .fail n => some (s.stop n)

end RoleWorld

/-- Each version of the document is one of the admin role, or none is. -/
structure RoleDoc.Sound (name : String) (role : RoleDoc) : Prop where
  wellFormed : role.doc.WellFormed
  allowAll : ∀ row ∈ role.doc.versions, row.body.allowAll = (name == reservedAdminRole)

/-- Before the calls the policies point to roles that were assigned. -/
structure RoleWorld.First (s : RoleWorld) : Prop where
  idle : s.tasks = ∅
  roles : ∀ name role, s.roles name = some role → role.Sound name ∧ role.incarnation < s.nextRole
  assigned : ∀ user name k, (user, name, k) ∈ s.assigned →
    name ≠ reservedAdminRole ∧ k < s.nextRole
  pointers : ∀ user body name, s.policies.lookup user = some body →
    pointerOf body.policyData = some name → s.holds user name = true

/-- The runs of the operations on roles and policies. -/
def roleMutations (grantable : String → Bool) : System RoleWorld RoleLabel where
  init := RoleWorld.First
  step s a s' := s.next grantable a = some s'

end TaiSkeleton.AccessControl
