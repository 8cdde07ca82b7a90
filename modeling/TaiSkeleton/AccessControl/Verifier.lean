import TaiSkeleton.AccessControl.Settings
import TaiSkeleton.AccessControl.Policy
import TaiSkeleton.App.RouteRegistry
import TaiSkeleton.Lib.Dict

/-!
# From paths to resource ids

The tiers of the route resolution: the exact path, its automatic normalization, the explicit and
the dynamic patterns each look a url up in the route table, and every id found counts. The public
id is dropped under a reserved prefix, and where nothing is left a registered public route or the
SPA shell may still answer.
-/

namespace TaiSkeleton.AccessControl

open Lib App

/-! ## The route table -/

/-- A row of `access_control_routes`. -/
structure RouteRow where
  url : Path
  scopeId : String
  pattern : Option String
deriving DecidableEq

/-- The rows in the order the store returns them; `url` is the table's primary key. -/
abbrev RouteTable := List RouteRow

/-- `fetch_route` -/
def fetchRoute (table : RouteTable) (path : Path) : Option String :=
  (table.find? fun row => row.url == path).map RouteRow.scopeId

/-- `fetch_dynamic_patterns`: regex to url template. -/
def fetchDynamicPatterns (table : RouteTable) : List (String × Path) :=
  dictOf (table.filterMap fun row => row.pattern.map fun pattern => (pattern, row.url))

/-- What the resolution reads: whether the version and the table can be read, and the rows. -/
structure RouteStore where
  policyVersion : Except Fault ℕ
  table : Except Fault RouteTable

/-- The policy version that the reads are keyed on: the caller's, or the store's. -/
def RouteStore.readVersion (store : RouteStore) : Option ℕ → Except Fault ℕ
  | some version => .ok version
  | none => store.policyVersion

/-! ## Automatic normalization -/

/-- A UUID with its hyphens at the start of a text. -/
def startsUuid (text : Path) : Bool :=
  let group (start n : ℕ) : Bool :=
    ((text.drop start).take n).length == n && ((text.drop start).take n).all isHexDigit
  group 0 8 && text[8]? == some '-' && group 9 4 && text[13]? == some '-' && group 14 4 &&
    text[18]? == some '-' && group 19 4 && text[23]? == some '-' && group 24 12

/-- `UUID_PATTERN.sub`; `skip` of the next characters belong to the match before. -/
def subUuid : Path → ℕ → Path
  | [], _ => []
  | _ :: text, skip + 1 => subUuid text skip
  | c :: text, 0 =>
    if c = '/' ∧ startsUuid text then "/\x7buuid\x7d".toList ++ subUuid text 36
    else c :: subUuid text 0

/-- `DIGIT_PATTERN.sub`. -/
def subDigits (regexes : Regexes) : Path → ℕ → Path
  | [], _ => []
  | _ :: text, skip + 1 => subDigits regexes text skip
  | c :: text, 0 =>
    let digits := text.takeWhile regexes.isDecimal
    if c = '/' ∧ digits ≠ [] then "/\x7bid\x7d".toList ++ subDigits regexes text digits.length
    else c :: subDigits regexes text 0

/-- `_normalize_auto` -/
def normalizeAuto (regexes : Regexes) (path : Path) : Path :=
  subDigits regexes (subUuid path 0) 0

/-! ## Resolution -/

/-- `registered_reserved_get_paths`: the canonical paths of the concrete `GET` routes outside
`/api` and `/mcp`. -/
def registeredReservedGetPaths (recorded : List RouteMetadata) :
    Except MalformedPathError (List Path) := do
  let paths ← ((loadAllRoutes recorded).filter fun r =>
    r.methods.contains "GET" && !r.path.contains '{').mapM fun r => canonicalizePath r.path
  return paths.filter fun path => !underPrefix path "/api".toList && !underPrefix path "/mcp".toList

/-- What the resolution is set up with. -/
structure Verifier where
  settings : Settings
  regexes : Regexes
  recorded : List RouteMetadata

namespace Verifier

variable (v : Verifier)

/-- The urls that the tiers look up for a canonical path: the path itself, its automatic
normalization, and the templates of the explicit and the dynamic patterns that match it. -/
def matchedUrls (table : RouteTable) (path : Path) : List Path :=
  path ::
    (if normalizeAuto v.regexes path ≠ path then [normalizeAuto v.regexes path] else []) ++
    ((v.settings.pathPatterns.filter fun (pattern, _) => v.regexes.fullmatch pattern path).map
      Prod.snd ++
    ((fetchDynamicPatterns table).filter fun (pattern, _) =>
      v.regexes.fullmatch pattern path).map Prod.snd)

/-- The ids of the tiers; an empty id counts as none. -/
def foundIds (table : RouteTable) (path : Path) : List String :=
  ((v.matchedUrls table path).filterMap (fetchRoute table)).filter (· ≠ "")

/-- `_raw_fetch_dynamic_patterns` raises on a stored pattern that does not compile. -/
def patternsCompile (table : RouteTable) : Bool :=
  (fetchDynamicPatterns table).all fun (pattern, _) => v.regexes.compiles pattern

/-- The ids of the tiers, and the public one for an always-public route pattern. -/
def grantedIds (table : RouteTable) (path : Path) : List String :=
  v.foundIds table path ++
    (if matchesAlwaysPublicRoutePattern v.regexes v.settings path then
      [v.settings.publicResourceId] else [])

/-- The ids after the drop of the public one under a reserved prefix. -/
def tableIds (table : RouteTable) (path : Path) : List String :=
  if isReservedPrefix v.settings path then
    (v.grantedIds table path).filter (· ≠ v.settings.publicResourceId)
  else v.grantedIds table path

/-- The tier of the acknowledged public routes. -/
def acknowledgedPublic (registered : List Path) (path : Path) (method : Option String) : Bool :=
  (method == some "GET" || method == some "HEAD") && registered.contains path &&
    v.settings.acknowledgedPublicRoutes.contains path && !isReservedPrefix v.settings path

/-- The fallback to the SPA shell. -/
def spaShell (registered : List Path) (path : Path) (method : Option String) : Bool :=
  v.settings.spaShellPublic && method == some "GET" && !underPrefix path "/api".toList &&
    !underPrefix path "/mcp".toList && !registered.contains path &&
    !v.settings.reservedOperationalSupplement.contains path && !isReservedPrefix v.settings path

/-- The last two tiers read the registered paths, and raise with them, for these methods only. -/
def readsRegistered (method : Option String) : Bool :=
  method == some "GET" || method == some "HEAD"

/-- The last two tiers, where the table left nothing. -/
def fallbackIds (path : Path) (method : Option String) : Except Fault (List String) :=
  if readsRegistered method then
    match registeredReservedGetPaths v.recorded with
    | .error e => .error (.raised e.message)
    | .ok registered =>
      .ok (if v.acknowledgedPublic registered path method || v.spaShell registered path method then
        [v.settings.publicResourceId] else [])
  else .ok []

/-- `resolve_resource_ids`, as the list of a set. -/
def resolveResourceIds (store : RouteStore) (path : Path) (method : Option String)
    (policyVersion : Option ℕ) : Except Fault (List String) :=
  match canonicalizePath path with
  | .error _ => .ok []
  | .ok path =>
    if isAlwaysPublicPrefix v.settings path then .ok [v.settings.publicResourceId]
    else do
      let _ ← store.readVersion policyVersion
      let table ← store.table
      if v.patternsCompile table then
        if v.tableIds table path = [] then v.fallbackIds path method
        else return v.tableIds table path
      else .error (.raised "malformed dynamic route pattern")

end Verifier

end TaiSkeleton.AccessControl
