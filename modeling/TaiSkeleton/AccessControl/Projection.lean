import Mathlib.Data.Char
import Mathlib.Data.List.Lex
import TaiSkeleton.AccessControl.Backend
import TaiSkeleton.AccessControl.Middleware
import TaiSkeleton.AccessControl.PatternSample

/-!
# The capability projection

What a caller can reach, derived: each candidate path is resolved and covered as the guard does,
and the conditions and the level decision are asked for each method. A route pattern is probed on
one representative path.
-/

namespace TaiSkeleton.AccessControl

open Lib App

/-! ## The projection -/

/-- `RouteEntry` -/
structure RouteEntry where
  path : Path
  methods : List String
deriving DecidableEq

/-- `PatternEntry` -/
structure PatternEntry where
  pattern : String
  scopeId : String
deriving DecidableEq

/-- What the projection reads of a sub-MCP's `RouteConfig`. -/
structure RouteConfig where
  tools : List String
  transport : String

/-- `SubMcpEntry` -/
structure SubMcpEntry where
  slug : String
  tools : List String
  transport : String
deriving DecidableEq

/-- `ProjectionResult` -/
structure ProjectionResult where
  userId : String
  ownerUserId : Option String
  admin : Bool
  scopes : List String
  routes : List RouteEntry
  routePatterns : List PatternEntry
  subMcp : List SubMcpEntry
  tools : List String
  agents : List String
  mintable : Bool
deriving DecidableEq

/-- What is listed besides the routes and the route table: the parser of patterns, the sub-MCP
registrations by slug, the registered tools and agents by name, and whether a key can be minted. -/
structure Registries where
  parse : String → Option (List RegexNode)
  subMcpRoutes : Except Fault (List (String × RouteConfig))
  allRegistryTools : Except Fault (List String)
  allAgentNames : List String
  mintable : Bool

/-- `_TOOL_RUN_DOORS` -/
def toolRunDoors : List (String × Path) :=
  [("POST", "/api/run-tool".toList), ("POST", "/api/tool-runs".toList)]

/-- `ROOT_PREFIX` -/
def rootPrefix : Path := "/app".toList

/-- The root that a sub-MCP is mounted at. -/
def mountRoot (slug : String) : Path := rootPrefix ++ '/' :: slug.toList

/-- The door that an agent is run through. -/
def runPath (name : String) : Path := "/api/agents/".toList ++ name.toList ++ "/runs".toList

/-! ## One build -/

variable (s : Snapshot)

/-- `_PreparedPass`: a rendered condition and the context but for the request. -/
structure PreparedPass where
  condition : String
  configured : Bool
  base : JqAuthContext

/-- `_prepare_pass` -/
def preparePass (policy : AccessPolicy) (scopes : List String) (claims context : JsonObject)
    (userId : String) : Except Fault PreparedPass := do
  let condition ← s.evaluator.renderCondition policy
  return ⟨condition, policy.hasCondition,
    { sub := userId, scopes, identity := claims, policy := policy.policyData, context,
      method := none, path := [], time := s.time }⟩

/-- One pass over a request: a denial by the policy is no error. -/
def enforcePass (pass : PreparedPass) (path : Path) (method : String) : Except Fault Bool :=
  match s.evaluator.enforce { pass.base with method := some method, path } pass.condition
      pass.configured with
  | .ok () => .ok true
  | .error (.violation _) => .ok false
  | .error (.evaluation text) => .error (.raised text)

/-- `_jq_admits` -/
def jqAdmits (keyPass : PreparedPass) (ownerPass : Option PreparedPass) (path : Path)
    (method : String) : Except Fault Bool := do
  if ← enforcePass s keyPass path method then
    match ownerPass with
    | none => return true
    | some ownerPass => enforcePass s ownerPass path method
  else return false

/-- What one build reads once. Only the admin principal has no pass of its own. -/
structure Build where
  policy : AccessPolicy
  owner : Option String
  ownerPolicy : Option AccessPolicy
  keyPass : Option PreparedPass
  ownerPass : Option PreparedPass

/-- The policy of the owner that the claims name. -/
def claimedOwnerPolicy (owner : Option String) : Except Fault (Option AccessPolicy) :=
  match owner with
  | none => .ok none
  | some owner => do
    let ownerPolicy ← s.getPolicy owner
    return some ownerPolicy

/-- The owner's pass, which an owner without a condition has not. -/
def prepareOwnerPass (ownerPolicy : Option AccessPolicy) (claims context : JsonObject)
    (userId : String) : Except Fault (Option PreparedPass) :=
  match ownerPolicy with
  | none => .ok none
  | some ownerPolicy =>
    if ownerPolicy.hasCondition then do
      let pass ← preparePass s ownerPolicy ownerPolicy.scopes claims context userId
      return some pass
    else .ok none

/-- The reads and the passes at the start of `_build_uncached`. -/
def prepareBuild (userId : String) (scopes : List String) (claims : JsonObject) :
    Except Fault Build := do
  let policy ← s.getPolicy userId
  let owner ← stringMember claims ownerUserIdClaim
  let ownerPolicy ← claimedOwnerPolicy s owner
  let context ← s.liveContext userId
  if policy.isAdmin then return ⟨policy, owner, ownerPolicy, none, none⟩
  else
    let keyPass ← preparePass s policy scopes claims context userId
    let ownerPass ← prepareOwnerPass s ownerPolicy claims context userId
    return ⟨policy, owner, ownerPolicy, some keyPass, ownerPass⟩

local instance reachablePath_lawful : LawfulBEq (List Char) := inferInstance

/-- `_path_reachable` -/
def pathReachable (scopes : List String) (version : ℕ) (path : Path) : Except Fault Bool :=
  if path ∈ s.settings.authenticatedAlwaysAllowedPaths then .ok true
  else do
    let ids ← s.verifier.resolveResourceIds s.routes path none (some version)
    return ids != [] && (isPublicOnly s.settings.publicResourceId ids ||
      coversAll s.settings.publicResourceId ids scopes)

/-- `admits` of `_build_uncached` -/
def Build.admits (b : Build) (path : Path) (method : String) : Except Fault Bool :=
  if b.policy.isAdmin then .ok true
  else
    match b.keyPass with
    | none => .error (.raised "AssertionError")
    | some keyPass => do
      if ← jqAdmits s keyPass b.ownerPass path method then
        let (allowed, _) ← roleLevelDecision s.levelStore b.policy b.ownerPolicy path (some method)
        return allowed
      else return false

/-! ## The surfaces -/

/-- A surface is projected where its one path is reachable and its probe is admitted. -/
def probe (b : Build) (scopes : List String) (version : ℕ) (path probed : Path) (method : String) :
    Except Fault Bool := do
  if ← pathReachable s scopes version path then b.admits s probed method else return false

/-- The entry of a registered route: the methods that are admitted, unless there are none. -/
def routeEntry (b : Build) (scopes : List String) (version : ℕ) (route : RouteMetadata) :
    Except Fault (Option RouteEntry) :=
  if route.path.contains '{' then .ok none
  else do
    if ← pathReachable s scopes version route.path then
      let allowed ← collect (fun method => do
        if ← b.admits s route.path method then return some method else return none) route.methods
      if allowed = [] then return none
      else return some ⟨route.path, allowed.mergeSort fun a b => decide (a ≤ b)⟩
    else return none

/-- The entry of a stored pattern: its scope, where its representative path passes a `GET`. -/
def patternEntry (registries : Registries) (b : Build) (scopes : List String) (version : ℕ)
    (table : RouteTable) (templateUrl : Path) (regex : String) :
    Except Fault (Option PatternEntry) :=
  match fetchRoute table templateUrl with
  | none => .ok none
  | some scopeId =>
    match samplePathForPattern registries.parse s.verifier.regexes regex with
    | none => .ok none
    | some representative => do
      if ← probe s b scopes version representative representative "GET" then
        return some ⟨regex, scopeId⟩
      else return none

/-- The entry of a sub-MCP: its mount root is reachable, and the root with its slash passes a
`GET`. -/
def subMcpEntry (b : Build) (scopes : List String) (version : ℕ) (slug : String)
    (config : RouteConfig) : Except Fault (Option SubMcpEntry) := do
  if ← probe s b scopes version (mountRoot slug) (mountRoot slug ++ ['/']) "GET" then
    return some ⟨slug, config.tools, config.transport⟩
  else return none

/-- An agent is listed where its run door passes a `POST`. -/
def agentEntry (b : Build) (scopes : List String) (version : ℕ) (name : String) :
    Except Fault (Option String) := do
  if ← probe s b scopes version (runPath name) (runPath name) "POST" then return some name
  else return none

/-- `get_all_existing_patterns`, sorted: the url and the regex of each row that has one. -/
def allExistingPatterns (table : RouteTable) : List (Path × String) :=
  (table.filterMap fun row => row.pattern.map fun regex => (row.url, regex)).mergeSort
    fun a b => decide (a.1 ≤ b.1)

/-- Every registered tool behind a tool-run door, and else the tools of the mounts. -/
def projectedTools (registries : Registries) (routes : List RouteEntry)
    (subMcp : List SubMcpEntry) : Except Fault (List String) :=
  if toolRunDoors.any fun (method, path) =>
      routes.any fun entry => entry.path == path && entry.methods.contains method then
    registries.allRegistryTools
  else .ok ((subMcp.flatMap SubMcpEntry.tools).dedup.mergeSort fun a b => decide (a ≤ b))

/-- `_build_uncached` -/
def buildUncached (registries : Registries) (userId : String) (version : ℕ) (scopes : List String)
    (claims : JsonObject) : Except Fault ProjectionResult := do
  let b ← prepareBuild s userId scopes claims
  let routes ← collect (routeEntry s b scopes version) (loadApiRoutes s.verifier.recorded)
  let table ← s.routes.table
  let routePatterns ← collect (fun (templateUrl, regex) =>
    patternEntry s registries b scopes version table templateUrl regex) (allExistingPatterns table)
  let subRoutes ← registries.subMcpRoutes
  let subMcp ← collect (fun (slug, config) => subMcpEntry s b scopes version slug config)
    (subRoutes.mergeSort fun a b => decide (a.1 ≤ b.1))
  let tools ← projectedTools registries routes subMcp
  let agents ← collect (agentEntry s b scopes version) registries.allAgentNames
  let sorted := routes.mergeSort fun a b => decide (a.path ≤ b.path)
  return ⟨userId, b.owner, b.policy.isAdmin, scopes, sorted, routePatterns, subMcp, tools, agents,
    registries.mintable⟩

end TaiSkeleton.AccessControl
