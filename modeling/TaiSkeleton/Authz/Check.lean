import TaiSkeleton.AccessControl.Middleware

/-!
# The tool edge

A tool that is an operation is authorized on the path its route template makes of the call's
arguments. The path is pinned twice before any layer reads it: an argument fills the segments its
parameter declares, and the result resolves back to the operation's own registered route. Then the
terms of the HTTP edge follow, read at one policy version.
-/

namespace TaiSkeleton.Authz

open Lib App AccessControl

/-- What `check` reads of an `OperationMetadata`. -/
structure OperationMetadata where
  name : String
  routeTemplate : Option Path
  httpMethod : Option String
deriving DecidableEq

/-- `operation_metadata.http_method or "POST"` -/
def OperationMetadata.method (op : OperationMetadata) : String :=
  match op.httpMethod with
  | none => "POST"
  | some method => if method = "" then "POST" else method

/-- `CallerIdentity` -/
structure CallerIdentity where
  userId : Option String := none
  isInternal : Bool := false
  effectiveScopes : Option (List String) := none
  claims : Option JsonObject := none
  executionKeyFingerprint : Option String := none

/-- The arguments of a call, each as `str` spells it. -/
abbrev CallArguments := List (String × Path)

/-- What `check` raises: a `PermissionDenied`, or an exception it does not catch. -/
inductive CheckError where
  | permissionDenied (text : String)
  | raised (text : String)
deriving DecidableEq

/-- The denial that says no more. -/
def accessDenied : CheckError := .permissionDenied "access denied"

/-! ## The synthesized path -/

/-- `_MULTI_SEGMENT_CONVERTER` -/
def multiSegmentConverter : Path := "path".toList

/-- `_UNSAFE_SEGMENTS` -/
def unsafeSegments : List Path := ["".toList, ".".toList, "..".toList]

/-- The parameter that the text after a `{` spells, its converter, and how many characters it
takes: `([^}:]+)(?::([^}]+))?` and then `}`. -/
def pathParam (text : Path) : Option (Path × Option Path × ℕ) :=
  let name := text.takeWhile fun c => c != '}' && c != ':'
  if name = [] then none
  else
    match text.drop name.length with
    | '}' :: _ => some (name, none, name.length + 1)
    | ':' :: rest =>
      let converter := rest.takeWhile (· != '}')
      if converter ≠ [] ∧ ['}'].isPrefixOf (rest.drop converter.length) then
        some (name, some converter, name.length + converter.length + 2)
      else none
    | _ => none

variable (op : OperationMetadata) (args : CallArguments)

/-- `_sub`: the value of a parameter. -/
def substitute (param : Path) (converter : Option Path) : Except CheckError Path := do
  match args.lookup (String.ofList param) with
  | none => .error (.permissionDenied ("access denied: missing path argument " ++
      TokenFree.repr param ++ " for " ++ TokenFree.repr op.name.toList))
  | some value =>
    ensure (converter = some multiSegmentConverter || !value.contains '/')
      (.permissionDenied ("access denied: path argument " ++ TokenFree.repr param ++ " for " ++
        TokenFree.repr op.name.toList ++ " spans more than one path segment"))
    ensure ((value.splitOn '/').all fun segment => !unsafeSegments.contains segment)
      (.permissionDenied ("access denied: path argument " ++ TokenFree.repr param ++ " for " ++
        TokenFree.repr op.name.toList ++ " is not a path segment"))
    return value

/-- `_PATH_PARAM.sub` of a template; `skip` of its next characters belong to the parameter
before. -/
def substituteTemplate : Path → ℕ → Except CheckError Path
  | [], _ => .ok []
  | _ :: text, skip + 1 => substituteTemplate text skip
  | c :: text, 0 => do
    match if c = '{' then pathParam text else none with
    | some (param, converter, length) =>
      let value ← substitute op args param converter
      let rest ← substituteTemplate text length
      return value ++ rest
    | none =>
      let rest ← substituteTemplate text 0
      return c :: rest

/-- `synthesize_path` -/
def synthesizePath : Except CheckError Path :=
  match op.routeTemplate with
  | none => .error (.raised ("operation " ++ TokenFree.repr op.name.toList ++
      " has no route template; it was never registered as a route"))
  | some template => substituteTemplate op args template 0

/-! ## The route pin -/

/-- A malformed path that nothing catches. -/
def uncaught (e : MalformedPathError) : CheckError := .raised e.message

/-- `_own_route` -/
def ownRoute (recorded : List RouteMetadata) (path : Path) (method : String) :
    Except CheckError RouteMetadata :=
  match op.routeTemplate with
  | none => .error (.raised "AssertionError")
  | some template => do
    let canonical ← (canonicalizePath path).mapError fun _ => .permissionDenied
      ("access denied: " ++ method ++ " " ++ String.ofList path ++
        " is not a well-formed path for " ++ TokenFree.repr op.name.toList)
    let found ← (resolveRouteMeta recorded canonical (some method)).mapError uncaught
    let denied := CheckError.permissionDenied ("access denied: " ++ method ++ " " ++
      String.ofList path ++ " does not resolve to the route " ++ TokenFree.repr op.name.toList ++
      " is registered at")
    match found with
    | none => .error denied
    | some route =>
      let resolved ← (canonicalizePath route.path).mapError uncaught
      let own ← (canonicalizePath template).mapError uncaught
      ensure (resolved == own) denied
      return route

/-! ## The terms of the decision -/

variable (s : Snapshot)

/-- The owner's policy, for claims that name an owner; it has to be live. -/
def readOwner (claims : JsonObject) : Except CheckError (Option AccessPolicy) := do
  match ← (stringMember claims ownerUserIdClaim).mapError fun _ => accessDenied with
  | none => return none
  | some owner =>
    let ownerPolicy ← (s.fetchPolicy owner).mapError fun _ => accessDenied
    ensure (!ownerPolicy.isDisabled) (.permissionDenied "access denied: owner is disabled")
    ensure (!ownerPolicy.isEmpty) (.permissionDenied "access denied: owner has no policy")
    return some ownerPolicy

/-- `KEY_FINGERPRINT_CLAIM` -/
def keyFingerprintClaim : String := "key_fingerprint"

/-- What a background fire asserts of the live policy: it exists, and it is of the very mint that
the fire is bound to. -/
def assertFirePolicy (caller : CallerIdentity) (userId : String) (policy : AccessPolicy) :
    Except CheckError Unit := do
  ensure (!policy.isEmpty) (.permissionDenied "access denied: principal has no policy")
  match caller.executionKeyFingerprint with
  | none => .error (.permissionDenied
      "access denied: bound execution identity carries no key fingerprint")
  | some fingerprint =>
    match Json.member policy.policyData keyFingerprintClaim with
    | .str live =>
      ensure (live == fingerprint) (.permissionDenied ("access denied: execution key " ++
        TokenFree.repr userId.toList ++ " no longer matches the bound key identity"))
    | _ => .error (.permissionDenied ("access denied: execution key " ++
        TokenFree.repr userId.toList ++ " no longer matches the bound key identity"))

/-- The scopes of the decision: a fire's are attenuated here, a request carries the ones that the
backend decided. -/
def decisionScopes (caller : CallerIdentity) (isExecutionFire : Bool) (policy : AccessPolicy)
    (ownerPolicy : Option AccessPolicy) : List String :=
  if isExecutionFire then
    match ownerPolicy with
    | some ownerPolicy => effectiveScopes policy.scopes ownerPolicy.scopes
    | none => policy.scopes
  else caller.effectiveScopes.getD policy.scopes

/-- One condition pass: the condition of a principal rendered, asserted token-free-evaluable at a
fire, and enforced. -/
def conditionPass (evaluable : String → Bool) (isExecutionFire : Bool) (principal : String)
    (policy : AccessPolicy) (context : JqAuthContext) : Except CheckError Unit := do
  let condition ← (s.evaluator.renderCondition policy).mapError fun _ => .permissionDenied
    ("access denied: the policy condition of " ++ TokenFree.repr principal.toList ++
      " does not render")
  ensure (!isExecutionFire || condition == "" || evaluable condition) (.permissionDenied
    ("access denied: policy condition for " ++ TokenFree.repr principal.toList ++
      " is not evaluable at a fire"))
  (s.evaluator.enforce context condition policy.hasCondition).mapError fun
    | .violation _ => .permissionDenied "access denied: policy condition rejected"
    | .evaluation _ => accessDenied

/-- The context of the caller's condition at the tool edge. -/
def callerContext (userId : String) (claims : JsonObject) (scopes : List String)
    (policy : AccessPolicy) (context : JsonObject) (method : String) (path : Path) :
    JqAuthContext :=
  { sub := userId, scopes, identity := claims, policy := policy.policyData, context,
    method := some method, path, time := s.time }

/-- The owner's condition pass, where an owner with a condition caps the caller. -/
def ownerConditionPass (evaluable : String → Bool) (isExecutionFire : Bool) (userId : String)
    (claims : JsonObject) (ownerPolicy : Option AccessPolicy) (context : JsonObject)
    (method : String) (path : Path) : Except CheckError Unit :=
  match ownerPolicy with
  | none => .ok ()
  | some ownerPolicy =>
    if ownerPolicy.hasCondition then
      conditionPass s evaluable isExecutionFire userId ownerPolicy
        (callerContext s userId claims ownerPolicy.scopes ownerPolicy context method path)
    else .ok ()

/-- The level pass over the pinned route. -/
def routeLevelPass (userId : String) (policy : AccessPolicy) (ownerPolicy : Option AccessPolicy)
    (route : RouteMetadata) (method : String) (path : Path) : Except CheckError Unit :=
  match roleLevelDecisionForRoute s.levelStore policy ownerPolicy route method with
  | .error _ => .error accessDenied
  | .ok (true, _) => .ok ()
  | .ok (false, _) => .error (.permissionDenied ("access denied: " ++ method ++ " " ++
      String.ofList path ++ " is not permitted for " ++ TokenFree.repr userId.toList))

/-- The decision past the always-public prefixes. -/
def authorizeCaller (evaluable : String → Bool) (caller : CallerIdentity) (userId : String)
    (path : Path) (method : String) (route : RouteMetadata) (isExecutionFire : Bool)
    (ids : List String) : Except CheckError Unit := do
  let policy ← (s.fetchPolicy userId).mapError fun _ => accessDenied
  let context ← (s.liveContext userId).mapError fun _ => accessDenied
  ensure (!policy.isDisabled) (.permissionDenied "access denied: principal is disabled")
  if isExecutionFire then assertFirePolicy caller userId policy else pure ()
  let claims := caller.claims.getD []
  let ownerPolicy ← readOwner s claims
  let scopes := decisionScopes caller isExecutionFire policy ownerPolicy
  -- Publicness relaxes the scope test alone.
  ensure (isPublicOnly s.settings.publicResourceId ids ||
      coversAll s.settings.publicResourceId ids scopes)
    (.permissionDenied "access denied: insufficient scope")
  conditionPass s evaluable isExecutionFire userId policy
    (callerContext s userId claims scopes policy context method path)
  ownerConditionPass s evaluable isExecutionFire userId claims ownerPolicy context method path
  routeLevelPass s userId policy ownerPolicy route method path

/-- `_authorize_pinned_route`; `evaluable` is what `assert_token_free_evaluable` accepts. -/
def authorizePinnedRoute (evaluable : String → Bool) (caller : CallerIdentity) (userId : String)
    (path : Path) (method : String) (route : RouteMetadata) (isExecutionFire : Bool) :
    Except CheckError Unit := do
  let version ← s.routes.policyVersion.mapError fun _ => accessDenied
  let ids ← (s.verifier.resolveResourceIds s.routes path none (some version)).mapError
    fun _ => accessDenied
  ensure (ids != []) (.permissionDenied ("access denied: no resource configured for " ++ method ++
    " " ++ String.ofList path))
  let canonical ← (canonicalizePath path).mapError uncaught
  if isAlwaysPublicPrefix s.settings canonical then return ()
  else authorizeCaller s evaluable caller userId path method route isExecutionFire ids

/-- `check` -/
def check (evaluable : String → Bool) (caller : CallerIdentity) (isExecutionFire : Bool) :
    Except CheckError Unit :=
  if !s.settings.enable || caller.isInternal then .ok ()
  else
    match caller.userId with
    | none => .error (.permissionDenied
        "access denied: no caller identity for an external tool dispatch")
    | some userId => do
      let path ← synthesizePath op args
      let route ← ownRoute op s.verifier.recorded path op.method
      authorizePinnedRoute s evaluable caller userId path op.method route isExecutionFire

end TaiSkeleton.Authz
