import TaiSkeleton.App.RouteRegistry
import TaiSkeleton.Lib.Except

/-!
# The per-tag level gate

A request is resolved to its registered route by an index of the gate's own: a concrete path is
looked up, and a templated one is matched segment by segment. Over the route, a role's grants
decide by the feature tags; an admin-only route is granted by no tag.
-/

namespace TaiSkeleton.AccessControl

open Lib App

/-- `DenialCause` -/
inductive DenialCause where
  | hardFence | levelMiss | scopeMiss
deriving DecidableEq, Repr

/-- The value of the cause, as it is logged. -/
def DenialCause.value : DenialCause → String
  | hardFence => "hard-fence"
  | levelMiss => "level-miss"
  | scopeMiss => "scope-miss"

/-- `RoleGrants`: feature tag to access level. -/
abbrev RoleGrants := List (String × String)

/-- `_LEVEL_RANK`, an unknown level ranking as `none`. -/
def levelRank (level : String) : ℕ :=
  (([("none", 0), ("read", 1), ("write", 2)] : List (String × ℕ)).lookup level).getD 0

/-- `_ACTION_RANK` -/
def actionRank : DerivedAction → ℕ
  | .read => 1
  | .write => 2

/-- `level_satisfies` -/
def levelSatisfies (level : String) (action : DerivedAction) : Bool :=
  actionRank action ≤ levelRank level

/-- `grant_map_admits` -/
def grantMapAdmits (route : RouteMetadata) (method : String) (grants : RoleGrants) :
    Except String (Bool × Option DenialCause) :=
  if route.action.isFenced then .ok (false, some .hardFence)
  else do
    let derived ← methodToAction method
    if route.tags.any fun tag => levelSatisfies ((grants.lookup tag).getD "none") derived then
      return (true, none)
    else return (false, some .levelMiss)

/-! ## The templates of the gate -/

/-- A piece of a path template as the gate matches it. -/
inductive GatePiece where
  | char (c : Char)
  | segment
  | rest
deriving DecidableEq

/-- The parameter that the text after a `{` spells, and how many characters it takes:
`[^}:]+` and then `}` or `:path}`. -/
def gateParameter (text : Path) : Option (GatePiece × ℕ) :=
  let name := text.takeWhile fun c => c != '}' && c != ':'
  if name = [] then none
  else if ['}'].isPrefixOf (text.drop name.length) then some (.segment, name.length + 1)
  else if ":path\x7d".toList.isPrefixOf (text.drop name.length) then
    some (.rest, name.length + 6)
  else none

/-- The pieces of a template; `skip` of its next characters belong to the parameter before. A
brace that opens no parameter the gate knows is an ordinary character. -/
def gatePieces : Path → ℕ → List GatePiece
  | [], _ => []
  | _ :: text, skip + 1 => gatePieces text skip
  | c :: text, 0 =>
    if c = '{' then
      match gateParameter text with
      | some (piece, length) => piece :: gatePieces text length
      | none => .char c :: gatePieces text 0
    else .char c :: gatePieces text 0

/-- `_template_to_regex`, as the pieces of the pattern. -/
def templateToRegex (template : Path) : List GatePiece := gatePieces template 0

/-- Whether a path splits into a first part that satisfies `p` and a rest that satisfies `q`. -/
def splitsAs (p q : Path → Bool) (path : Path) : Bool :=
  (List.range (path.length + 1)).any fun n => p (path.take n) && q (path.drop n)

/-- `[^/]+` -/
def isSegment (text : Path) : Bool := text != [] && text.all (· != '/')

/-- `.+` -/
def isRest (text : Path) : Bool := text != [] && text.all (· != '\n')

/-- Whether the pattern of the pieces matches the whole path. -/
def gateMatches : List GatePiece → Path → Bool
  | [], path => path.isEmpty
  | .char c :: pieces, path =>
    match path with
    | [] => false
    | d :: path => c == d && gateMatches pieces path
  | .segment :: pieces, path => splitsAs isSegment (gateMatches pieces) path
  | .rest :: pieces, path => splitsAs isRest (gateMatches pieces) path

/-! ## The index of the registered routes -/

/-- `_concrete_index` and `_templated_matchers`. A concrete entry written later comes first. -/
structure RouteIndex where
  concrete : List ((Path × String) × RouteMetadata)
  templated : List (List GatePiece × List String × RouteMetadata)

/-- A route whose canonical path has a brace is matched, any other is looked up. -/
def RouteIndex.add (index : RouteIndex) (route : RouteMetadata) :
    Except MalformedPathError RouteIndex := do
  let path ← canonicalizePath route.path
  if path.contains '{' then
    return { index with
      templated := index.templated ++ [(templateToRegex path, servedMethods route, route)] }
  else
    return { index with
      concrete := (servedMethods route).map (fun method => ((path, method), route)) ++
        index.concrete }

/-- `_build_index`, over the enumeration of the routes. -/
def buildIndex (routes : List RouteMetadata) : Except MalformedPathError RouteIndex :=
  routes.foldlM RouteIndex.add ⟨[], []⟩

/-- The entry an index has for a canonical path and a method. -/
def RouteIndex.find (index : RouteIndex) (path : Path) (method : String) : Option RouteMetadata :=
  (index.concrete.lookup (path, method)).or
    ((index.templated.find? fun (pieces, methods, _) =>
      methods.contains method && gateMatches pieces path).map fun (_, _, route) => route)

/-- `resolve_route_meta`, over the recorded routes. -/
def resolveRouteMeta (recorded : List RouteMetadata) (path : Path) (method : Option String) :
    Except MalformedPathError (Option RouteMetadata) :=
  match method with
  | none => .ok none
  | some method => do
    let index ← buildIndex (loadAllRoutes recorded)
    match canonicalizePath path with
    | .error _ => return none
    | .ok path => return index.find path method

end TaiSkeleton.AccessControl
