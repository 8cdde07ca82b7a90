import TaiSkeleton.AccessControl.Backend

/-!
# The resource guard

The second half of the HTTP edge: the carve-out for any authenticated caller, then the resource
ids the path resolves to against the scopes the backend gave the caller.
-/

namespace TaiSkeleton.AccessControl

open Lib App

local instance guardPath_lawful : LawfulBEq (List Char) := inferInstance

/-- What the edge does with a request. -/
inductive Outcome where
  | app (user : User)
  | deny (status : ℕ) (message : String) (reason : Option String)
  | raised

/-- The request reaches the application. -/
def Outcome.admitted : Outcome → Bool
  | app _ => true
  | _ => false

/-- `_REASON_RESOLVE_ERROR` -/
def reasonResolveError : String := "resolve-error"

/-- `_REASON_ROUTE_UNCONFIGURED` -/
def reasonRouteUnconfigured : String := "route-unconfigured"

/-- `_REASON_SCOPE_MISS` -/
def reasonScopeMiss : String := "scope-miss"

/-- `is_admin` of the user, which only an authenticated one has. -/
def isAdminUser : User → Bool
  | some user => user.isAdmin
  | none => false

/-- Every resolved id but the public one is in the scopes, or a wildcard is. -/
def coversAll (publicId : String) (ids scopes : List String) : Bool :=
  scopes.contains "*" || (ids.filter (· ≠ publicId)).all fun id => scopes.contains id

/-- Public is the only resolved id. -/
def isPublicOnly (publicId : String) (ids : List String) : Bool :=
  ids.contains publicId && ids.all (· == publicId)

/-- `ResourceGuardMiddleware.__call__` of a guarded scope, with the path that each of its
decisions is fed. -/
def guardOn (s : Snapshot) (method : Option String) (carveOutPath resolvePath : Path)
    (credentials : Credentials) : Outcome :=
  if carveOutPath ∈ s.settings.authenticatedAlwaysAllowedPaths then
    match credentials.user with
    | none => .deny 401 "Authentication required" none
    | some user => .app (some user)
  else
    match s.verifier.resolveResourceIds s.routes resolvePath method none with
    | .error _ => .deny 403 "Forbidden: Route not configured" (some reasonResolveError)
    | .ok [] =>
      if isAdminUser credentials.user then .app credentials.user
      else .deny 403 "Forbidden: Route not configured" (some reasonRouteUnconfigured)
    | .ok ids =>
      if isPublicOnly s.settings.publicResourceId ids then .app credentials.user
      else
        match credentials.user with
        | none => .deny 401 "Authentication required" none
        | some user =>
          if coversAll s.settings.publicResourceId ids credentials.scopes then .app (some user)
          else .deny 403 "Forbidden" (some reasonScopeMiss)

/-- The resource guard. -/
def resourceGuard (s : Snapshot) (conn : Connection) (credentials : Credentials) : Outcome :=
  match conn.target.urlPath s.netlocChecks with
  | .error _ => .raised
  | .ok path => guardOn s conn.method path path credentials

/-- `handle_auth_error` -/
def handleAuthError : AuthError → Outcome
  | .url _ => .raised
  | .authentication _ => .deny 401 "Unauthorized" none
  | .authorization _ cause => .deny 403 "Forbidden" (cause.map DenialCause.value)

/-- The HTTP edge: the backend, and then the guard. -/
def httpEdge (s : Snapshot) (conn : Connection) : Outcome :=
  match authenticate s conn with
  | .error e => handleAuthError e
  | .ok credentials => resourceGuard s conn credentials

/-! ## The paths the edge decides on -/

/-- The path that each decision of the edge is fed. -/
structure FedPaths where
  publicPath : Path
  jqPath : Path
  levelPath : Path
  carveOutPath : Path
  resolvePath : Path
deriving DecidableEq

/-- All of them are the path of the connection's URL. -/
def fedPaths (checks : NetlocChecks) (target : Target) : Except UrlError FedPaths := do
  let path ← target.urlPath checks
  return ⟨path, path, path, path, path⟩

/-- The edge, with the path that each of its decisions is fed. -/
def httpEdgeOn (s : Snapshot) (conn : Connection) (fed : FedPaths) : Outcome :=
  match authenticateOn s conn fed.publicPath fed.jqPath fed.levelPath with
  | .error e => handleAuthError e
  | .ok credentials => guardOn s conn.method fed.carveOutPath fed.resolvePath credentials

theorem httpEdge_eq (s : Snapshot) (conn : Connection) :
    httpEdge s conn = match fedPaths s.netlocChecks conn.target with
      | .error _ => .raised
      | .ok fed => httpEdgeOn s conn fed := by
  unfold httpEdge authenticate fedPaths httpEdgeOn connectionPath resourceGuard
  cases conn.target.urlPath s.netlocChecks with
  | error e => rfl
  | ok path => rfl

/-- The edge decides on the path that the router matches on exactly for a network location that
`urlsplit` takes, a plain path, and a host that keeps it. -/
theorem fedPaths_eq_iff {checks : NetlocChecks} {target : Target} :
    fedPaths checks target =
        .ok ⟨target.path, target.path, target.path, target.path, target.path⟩ ↔
      checks.admits target.netloc = true ∧ PlainPath target.path ∧
        HostKeeps target.host target.path := by
  rw [← urlPath_eq_ok_iff]
  unfold fedPaths
  cases target.urlPath checks with
  | error e => simp
  | ok path => simp

/-- A path with a `?` in it, to an ordinary host. -/
def questionTarget : Target := ⟨.http, "localhost".toList, "/api/x?y".toList, []⟩

theorem questionTarget_fedPaths :
    fedPaths ⟨fun _ => true, fun _ => true⟩ questionTarget =
      .ok ⟨"/api/x".toList, "/api/x".toList, "/api/x".toList, "/api/x".toList, "/api/x".toList⟩ ∧
    questionTarget.path ≠ "/api/x".toList := by
  decide +kernel

end TaiSkeleton.AccessControl
