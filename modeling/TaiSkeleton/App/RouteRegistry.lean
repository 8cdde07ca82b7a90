import TaiSkeleton.AccessControl.PathCanon
import Mathlib.Data.String.Basic
import Mathlib.Data.List.Lex
import Mathlib.Data.List.Sort

/-!
# The route registry

Every route of the HTTP surface is recorded with what authorization reads of it: its path, its
methods, its feature tags and its action-class. The enumeration of the routes is sorted by path
and methods, whatever the order of registration.
-/

namespace TaiSkeleton.App

open AccessControl (Path)

/-- `RouteAction` -/
inductive RouteAction where
  | read | write | fenced | secret
deriving DecidableEq, Repr

/-- The admin-only classes, `_FENCED_ROUTE_ACTIONS`. -/
def RouteAction.isFenced : RouteAction → Bool
  | fenced | secret => true
  | read | write => false

/-- What authorization reads of a `RouteMetadata`. -/
structure RouteMetadata where
  path : Path
  methods : List String
  tags : List String
  action : RouteAction
deriving DecidableEq

/-- The action-class that a method derives to. -/
inductive DerivedAction where
  | read | write
deriving DecidableEq

/-- `_READ_METHODS` -/
def readMethods : List String := ["GET", "HEAD", "OPTIONS"]

/-- `_WRITE_METHODS` -/
def writeMethods : List String := ["POST", "PUT", "PATCH", "DELETE"]

/-- `method_to_action`; the error is the text of the `ValueError`. -/
def methodToAction (method : String) : Except String DerivedAction :=
  if method.toUpper ∈ readMethods then .ok .read
  else if method.toUpper ∈ writeMethods then .ok .write
  else .error ("unclassifiable HTTP method " ++ Authz.TokenFree.repr method.toList ++
    ": cannot derive a read/write action")

/-- The order of the registry's keys: by path, then by methods. -/
def RouteMetadata.keyLe (r s : RouteMetadata) : Bool :=
  decide (r.path < s.path) || (r.path == s.path && decide (r.methods ≤ s.methods))

/-- `load_all_routes`: the recorded routes in the order of their keys. -/
def loadAllRoutes (recorded : List RouteMetadata) : List RouteMetadata :=
  recorded.mergeSort RouteMetadata.keyLe

theorem mem_loadAllRoutes {recorded : List RouteMetadata} {r : RouteMetadata} :
    r ∈ loadAllRoutes recorded ↔ r ∈ recorded :=
  List.mem_mergeSort

/-- `load_api_routes`: those under `/api/`. -/
def loadApiRoutes (recorded : List RouteMetadata) : List RouteMetadata :=
  (loadAllRoutes recorded).filter fun r => "/api/".toList.isPrefixOf r.path

/-! ## The methods the router serves -/

/-- `_served_methods`: the router answers `HEAD` wherever it answers `GET`. -/
def servedMethods (r : RouteMetadata) : List String :=
  if "GET" ∈ r.methods then "HEAD" :: r.methods else r.methods

end TaiSkeleton.App
