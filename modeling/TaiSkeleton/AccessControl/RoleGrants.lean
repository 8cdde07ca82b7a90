import TaiSkeleton.AccessControl.Policy
import TaiSkeleton.AccessControl.RoleGate

/-!
# The level decision

The decision every edge shares: an admin-only route is for the admin principal, and on any other
route the grants of the governing role decide, the owner's role governing an owned key.
-/

namespace TaiSkeleton.AccessControl

open Lib App

/-- What the level decision reads: the recorded routes, and a role's current grants, `none` where
the role does not exist. -/
structure LevelStore where
  recorded : List RouteMetadata
  resolveRoleGrants : String → Except Fault (Option RoleGrants)

variable (store : LevelStore)

/-- `role_level_decision_for_route` -/
def roleLevelDecisionForRoute (policy : AccessPolicy) (ownerPolicy : Option AccessPolicy)
    (route : RouteMetadata) (method : String) : Except Fault (Bool × Option DenialCause) :=
  if route.action.isFenced then
    if policy.isAdmin then .ok (true, none) else .ok (false, some .hardFence)
  else
    let governing := ownerPolicy.getD policy
    if governing.isAdmin then .ok (true, none)
    else do
      match ← stringMember governing.policyData rolePointerKey with
      | none => return (true, none)
      | some roleName =>
        match ← store.resolveRoleGrants roleName with
        | none => return (false, some .levelMiss)
        | some grants =>
          match grantMapAdmits route method grants with
          | .error text => .error (.raised text)
          | .ok decision => return decision

/-- `role_level_decision` -/
def roleLevelDecision (policy : AccessPolicy) (ownerPolicy : Option AccessPolicy) (path : Path)
    (method : Option String) : Except Fault (Bool × Option DenialCause) :=
  match method with
  | none => .ok (true, none)
  | some m =>
    match resolveRouteMeta store.recorded path (some m) with
    | .error e => .error (.raised e.message)
    | .ok none => .ok (true, none)
    | .ok (some route) => roleLevelDecisionForRoute store policy ownerPolicy route m

theorem roleLevelDecision_of_route {policy : AccessPolicy} {ownerPolicy : Option AccessPolicy}
    {path : Path} {method : String} {route : RouteMetadata}
    (h : resolveRouteMeta store.recorded path (some method) = .ok (some route)) :
    roleLevelDecision store policy ownerPolicy path (some method) =
      roleLevelDecisionForRoute store policy ownerPolicy route method := by
  simp only [roleLevelDecision, h]

end TaiSkeleton.AccessControl
