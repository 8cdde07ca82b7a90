import TaiSkeleton.AccessControl.RequestUrl
import TaiSkeleton.AccessControl.RoleGrants
import TaiSkeleton.AccessControl.Verifier

/-!
# The authentication backend

Who a request comes from, and whether its policy lets it through: the credentials are verified,
the caller's policy and, for an owned key, the owner's are read, their conditions are enforced
over a context of the request, and the level decision is taken. Everything the decision reads is
one snapshot.
-/

namespace TaiSkeleton.AccessControl

open Lib App

/-! ## Credentials -/

/-- What the access-control middlewares read of a connection. A websocket has no method. -/
structure Connection where
  target : Target
  method : Option String
  authorization : Option Path
  apiKey : Option Path

/-- The whitespace that `str.strip` takes off a header value. -/
def isWhitespace (c : Char) : Bool :=
  (9 ≤ c.toNat && c.toNat ≤ 13) || (28 ≤ c.toNat && c.toNat ≤ 32) || c.toNat == 0x85 ||
    c.toNat == 0xA0

/-- `str.strip` -/
def strip (text : Path) : Path :=
  ((text.dropWhile isWhitespace).reverse.dropWhile isWhitespace).reverse

/-- The credential in an `Authorization` header: the token of the bearer scheme, or the whole
header where it names no scheme. -/
def authorizationCandidate (header : Path) : List Path :=
  let scheme := header.takeWhile (· != ' ')
  let token := header.drop (scheme.length + 1)
  if token = [] then [scheme]
  else if scheme.map Char.toLower = "bearer".toList then
    if strip token = [] then [] else [strip token]
  else []

/-- `extract_credential_candidates` -/
def extractCredentialCandidates (conn : Connection) : List Path :=
  (match conn.authorization with
    | some (c :: header) => authorizationCandidate (c :: header)
    | _ => []) ++
  (match conn.apiKey with
    | some (c :: key) => [c :: key]
    | _ => [])

/-- `AuthIdentity` -/
structure AuthIdentity where
  userId : String
  claims : JsonObject

/-- An identity provider, and whether it mints the keys it validates. -/
structure IdentityProvider where
  isApiKeyProvider : Bool
  validateToken : Path → Except Fault (Option AuthIdentity)

/-- `AccessToken` -/
structure AccessToken where
  clientId : String
  scopes : List String
  claims : JsonObject

/-- The claims of an identity; only a provider that mints keys may claim an owner. -/
def providerClaims (provider : IdentityProvider) (claims : JsonObject) : JsonObject :=
  if provider.isApiKeyProvider then claims
  else claims.filter fun (name, _) => name ≠ ownerUserIdClaim

/-- `verify_token`: the first provider that knows the token. -/
def verifyToken : List IdentityProvider → Path → Except Fault (Option AccessToken)
  | [], _ => .ok none
  | provider :: providers, token => do
    match ← provider.validateToken token with
    | none => verifyToken providers token
    | some identity =>
      return some ⟨identity.userId, [], providerClaims provider identity.claims⟩

/-! ## The snapshot -/

/-- What one request is decided on: the configuration, the registered routes, and what every read
answers at that time. -/
structure Snapshot where
  verifier : Verifier
  providers : Except Fault (List IdentityProvider)
  routes : RouteStore
  policyBody : String → Except Fault (Option AccessPolicy)
  liveContext : String → Except Fault JsonObject
  resolveRoleGrants : String → Except Fault (Option RoleGrants)
  evaluator : Evaluator
  netlocChecks : NetlocChecks
  time : ℚ

namespace Snapshot

variable (s : Snapshot)

def settings : Settings := s.verifier.settings

/-- What the level decision reads of the snapshot. -/
def levelStore : LevelStore := ⟨s.verifier.recorded, s.resolveRoleGrants⟩

/-- `_raw_fetch_policy`: a principal without a stored policy has the empty one. -/
def fetchPolicy (userId : String) : Except Fault AccessPolicy := do
  match ← s.policyBody userId with
  | none => return {}
  | some policy => return policy

/-- `get_policy` -/
def getPolicy (userId : String) : Except Fault AccessPolicy := do
  let _ ← s.routes.policyVersion
  s.fetchPolicy userId

end Snapshot

/-- `effective_scopes` -/
def effectiveScopes (keyScopes ownerScopes : List String) : List String :=
  if "*" ∈ ownerScopes then keyScopes
  else if "*" ∈ keyScopes then ownerScopes
  else keyScopes.filter (· ∈ ownerScopes)

/-! ## Authentication -/

/-- What `authenticate` raises. -/
inductive AuthError where
  | url (error : UrlError)
  | authentication (text : String)
  | authorization (text : String) (cause : Option DenialCause)
deriving DecidableEq

/-- The denial of an authenticated caller. -/
def accessDenied : AuthError := .authorization "Access Denied" none

/-- `TaiUser` -/
structure TaiUser where
  token : AccessToken
  isAdmin : Bool

/-- The user of a request; `none` for `UnauthenticatedUser`. -/
abbrev User := Option TaiUser

/-- The scopes and the user that a request is given. -/
structure Credentials where
  scopes : List String
  user : User

/-- What a request without an identity is given. -/
def anonymous : Credentials := ⟨["unauthenticated"], none⟩

/-- `_is_always_public_path` -/
def isAlwaysPublicPath (settings : Settings) (path : Path) : Bool :=
  match canonicalizePath path with
  | .error _ => false
  | .ok canonical => isAlwaysPublicPrefix settings canonical

/-- `_get_access_token`, over the candidates: the first that verifies; one that raises is passed
over like one that does not verify. -/
def firstVerified (verify : Path → Except Fault (Option AccessToken)) :
    List Path → Option AccessToken
  | [] => none
  | token :: tokens =>
    match verify token with
    | .ok (some accessToken) => some accessToken
    | _ => firstVerified verify tokens

/-- `_get_access_token` -/
def getAccessToken (s : Snapshot) (conn : Connection) : Except AuthError (Option AccessToken) :=
  match extractCredentialCandidates conn with
  | [] => .ok none
  | candidates =>
    match firstVerified (fun token => s.providers >>= fun ps => verifyToken ps token) candidates with
    | some token => .ok (some token)
    | none => .error (.authentication "Invalid API key")

/-- What is read of the stores for an authenticated caller. -/
structure AuthData where
  policy : AccessPolicy
  context : JsonObject
  ownerPolicy : Option AccessPolicy
  scopes : List String

/-- A policy that may act: neither disabled nor empty. -/
def isLive (policy : AccessPolicy) : Bool := !policy.isDisabled && !policy.isEmpty

/-- Steps 2 and 3 of `authenticate`: the caller's policy and live context, and the owner's policy,
which caps the scopes of an owned key. Every failure is the same denial. -/
def fetchAuthData (s : Snapshot) (token : AccessToken) : Except Fault AuthData := do
  let policy ← s.getPolicy token.clientId
  let context ← s.liveContext token.clientId
  if !isLive policy then .error (.raised "Access Denied")
  else
    match ← stringMember token.claims ownerUserIdClaim with
    | none => return ⟨policy, context, none, policy.scopes⟩
    | some owner =>
      let ownerPolicy ← s.getPolicy owner
      if !isLive ownerPolicy then .error (.raised "Access Denied")
      else
        return ⟨policy, context, some ownerPolicy,
          effectiveScopes policy.scopes ownerPolicy.scopes⟩

/-- The context of the caller's own condition. -/
def keyContext (s : Snapshot) (token : AccessToken) (data : AuthData) (method : Option String)
    (path : Path) : JqAuthContext :=
  { sub := token.clientId, scopes := data.scopes, identity := token.claims,
    policy := data.policy.policyData, context := data.context, method, path, time := s.time }

/-- The context of the owner's condition: the owner's scopes and policy data, the rest the
caller's. -/
def ownerContext (s : Snapshot) (token : AccessToken) (data : AuthData) (ownerPolicy : AccessPolicy)
    (method : Option String) (path : Path) : JqAuthContext :=
  { keyContext s token data method path with
    scopes := ownerPolicy.scopes, policy := ownerPolicy.policyData }

/-- A condition rendered and enforced. -/
def enforcePolicy (s : Snapshot) (policy : AccessPolicy) (context : JqAuthContext) :
    Except AuthError Unit :=
  match s.evaluator.renderCondition policy with
  | .error _ => .error accessDenied
  | .ok expression =>
    match s.evaluator.enforce context expression policy.hasCondition with
    | .error _ => .error accessDenied
    | .ok () => .ok ()

/-- Step 5 of `authenticate`: the caller's condition, and then the owner's. -/
def enforceConditions (s : Snapshot) (token : AccessToken) (data : AuthData)
    (method : Option String) (path : Path) : Except AuthError Unit := do
  enforcePolicy s data.policy (keyContext s token data method path)
  match data.ownerPolicy with
  | none => return ()
  | some ownerPolicy =>
    if ownerPolicy.hasCondition then
      enforcePolicy s ownerPolicy (ownerContext s token data ownerPolicy method path)
    else return ()

/-- Step 5b of `authenticate`: the level decision. -/
def levelPass (s : Snapshot) (data : AuthData) (method : Option String) (path : Path) :
    Except AuthError Unit :=
  match s.routes.policyVersion with
  | .error _ => .error accessDenied
  | .ok _ =>
    match roleLevelDecision s.levelStore data.policy data.ownerPolicy path method with
    | .error _ => .error accessDenied
    | .ok (true, _) => .ok ()
    | .ok (false, cause) => .error (.authorization "Access Denied" cause)

/-- `authenticate`, with the path that each of its decisions is fed. -/
def authenticateOn (s : Snapshot) (conn : Connection) (publicPath jqPath levelPath : Path) :
    Except AuthError Credentials :=
  if isAlwaysPublicPath s.settings publicPath then .ok anonymous
  else do
    match ← getAccessToken s conn with
    | none => return anonymous
    | some token =>
      match fetchAuthData s token with
      | .error _ => .error accessDenied
      | .ok data =>
        enforceConditions s token data conn.method jqPath
        levelPass s data conn.method levelPath
        return ⟨data.scopes, some ⟨{ token with scopes := data.scopes }, data.policy.isAdmin⟩⟩

/-- `conn.url.path`, as the backend reads it. -/
def connectionPath (s : Snapshot) (conn : Connection) : Except AuthError Path :=
  match conn.target.urlPath s.netlocChecks with
  | .error e => .error (.url e)
  | .ok path => .ok path

/-- `authenticate` -/
def authenticate (s : Snapshot) (conn : Connection) : Except AuthError Credentials := do
  let path ← connectionPath s conn
  authenticateOn s conn path path path

end TaiSkeleton.AccessControl
