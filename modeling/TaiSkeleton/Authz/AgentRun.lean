import TaiSkeleton.Authz.Containment
import TaiSkeleton.Authz.TokenFree.NonInterference
import TaiSkeleton.Authz.TokenFree.Parser

/-!
# The agent run at a fire

A background fire runs an agent through its run door, a route that is no operation: the path is the
door's template with the agent's name in it, and the route it resolves to is the one decided on.
What a fire is allowed there is measured against the HTTP request of the same principal.
-/

namespace TaiSkeleton.Authz

open Lib App AccessControl

/-- `/api/agents/{name}/runs`, as the run door is registered. -/
def runDoorTemplate : Path := "/api/agents/\x7bname\x7d/runs".toList

/-- The path of the run door for an agent. -/
def agentRunPath (agentName : Path) : Path := "/api/agents/".toList ++ agentName ++ "/runs".toList

/-- The route that the path of an agent's run resolves to. -/
def agentRunRoute (recorded : List RouteMetadata) (agentName : Path) :
    Except CheckError (Option RouteMetadata) := do
  let canonical ← (canonicalizePath (agentRunPath agentName)).mapError uncaught
  (resolveRouteMeta recorded canonical (some "POST")).mapError uncaught

/-- `authorize_execution_agent_run` -/
def authorizeExecutionAgentRun (s : Snapshot) (evaluable : String → Bool) (caller : CallerIdentity)
    (agentName : Path) : Except CheckError Unit :=
  if !s.settings.enable || caller.isInternal then .ok ()
  else
    match caller.userId with
    | none => .error (.permissionDenied "access denied: no caller identity for an agent run")
    | some userId => do
      match ← agentRunRoute s.verifier.recorded agentName with
      | none => .error (.permissionDenied ("access denied: POST " ++
          String.ofList (agentRunPath agentName) ++ " does not resolve to a registered route"))
      | some route =>
        authorizePinnedRoute s evaluable caller userId (agentRunPath agentName) "POST" route true

/-! ## The run door and the principal -/

/-- The route is the run door, and the agent's name is what its parameter takes of the canonical
path. -/
structure IsRunDoor (route : RouteMetadata) (agentName : Path) : Prop where
  template : route.path = runDoorTemplate
  serves : "POST" ∈ route.methods
  parameter : isSegment agentName = true ∧
    canonicalizePath (agentRunPath agentName) = .ok (agentRunPath agentName)

/-- Two auth contexts that differ in the identity claims only, and not in the owner claim. -/
structure AgreeOffClaims (c c' : JqAuthContext) : Prop where
  rest : { c with identity := c'.identity } = c'
  owner : Json.member c.identity ownerUserIdClaim = Json.member c'.identity ownerUserIdClaim

/-- jq answers alike on contexts that differ in the identity claims only, for the conditions that
are evaluable without a token. -/
def ReadsNoClaims (evaluator : Evaluator) (evaluable : String → Bool) : Prop :=
  ∀ expression, evaluable expression = true → ∀ c c', AgreeOffClaims c c' →
    evaluator.runJqFirst expression c.modelDump = evaluator.runJqFirst expression c'.modelDump

/-- `run_jq_first` of a condition, by the meaning of its parse. -/
def semFirst (literals : String → TokenFree.Literals ℚ) (primitives : TokenFree.Primitives ℚ)
    (fuel : ℕ) (expression : String) (value : JsonValue) : Except Fault (Option JsonValue) :=
  match TokenFree.parseCondition expression.toList fuel with
  | .error _ => .error (.raised "the condition is not parsed")
  | .ok node =>
    let outputs := TokenFree.sem (literals expression) primitives node [] value
    match outputs.values, outputs.error with
    | first :: _, _ => .ok (some first)
    | [], some _ => .error (.raised "jq error")
    | [], none => .ok none

/-- `assert_token_free_evaluable` accepts the condition. -/
def isTokenFree (fuel : ℕ) (expression : String) : Bool :=
  match TokenFree.parseCondition expression.toList fuel with
  | .error _ => false
  | .ok node => (TokenFree.assertSafe expression.toList node).isOk

/-- The caller of a fire under an execution key. -/
def fireCaller (key fingerprint : String) (claims : JsonObject) : CallerIdentity :=
  { userId := some key, claims := some claims, executionKeyFingerprint := some fingerprint }

/-- Whatever the stores hold, a fire that access control allows to run the agent was decided on the
run door for the agent's name, the HTTP edge admits the request of the same principal for the path,
and any other outcome is a `PermissionDenied`. -/
structure AgentRunIsDoor (v : Verifier) (checks : NetlocChecks) (agentName : Path)
    (target : Target) : Prop where
  allowed : ∀ (s : Snapshot) (evaluable : String → Bool) (key fingerprint : String)
    (claims : JsonObject), s.verifier = v → s.netlocChecks = checks →
    v.settings.enable = true → ReadsNoClaims s.evaluator evaluable →
    authorizeExecutionAgentRun s evaluable (fireCaller key fingerprint claims) agentName = .ok () →
    ∃ route, agentRunRoute v.recorded agentName = .ok (some route) ∧ IsRunDoor route agentName ∧
      ∀ (conn : Connection) (token : AccessToken),
        conn.target = { target with path := agentRunPath agentName } →
        conn.method = some "POST" → getAccessToken s conn = .ok (some token) →
        token.clientId = key →
        Json.member token.claims ownerUserIdClaim = Json.member claims ownerUserIdClaim →
        (httpEdge s conn).admitted = true
  refused : ∀ (s : Snapshot) (evaluable : String → Bool) (key fingerprint : String)
    (claims : JsonObject) (e : CheckError), s.verifier = v → s.netlocChecks = checks →
    authorizeExecutionAgentRun s evaluable (fireCaller key fingerprint claims) agentName =
      .error e → ∃ text, e = .permissionDenied text

variable {s : Snapshot} {evaluable : String → Bool} {key fingerprint : String}
  {claims : JsonObject} {token : AccessToken} {path agentName : Path} {method : String}
  {route : RouteMetadata}

/-! ## Conditions that read no claims -/

theorem agreeOffIdentity_modelDump {c c' : JqAuthContext} (h : AgreeOffClaims c c') :
    ∃ m m', c.modelDump = .obj m ∧ c'.modelDump = .obj m' ∧ TokenFree.AgreeOffIdentity m m' := by
  refine ⟨_, _, rfl, rfl, ?_, c.identity, c'.identity, rfl, rfl, h.owner⟩
  intro name hname
  rw [← h.rest]
  have hne : (name == "identity") = false := beq_eq_false_iff_ne.mpr hname
  simp [Json.member, List.lookup_cons, hne]

/-- The conditions that the token-free check accepts read no claims. -/
theorem readsNoClaims_of_isTokenFree (literals : String → TokenFree.Literals ℚ)
    (primitives : TokenFree.Primitives ℚ) (fuel : ℕ) {evaluator : Evaluator}
    (hrun : evaluator.runJqFirst = semFirst literals primitives fuel) :
    ReadsNoClaims evaluator (isTokenFree fuel) := by
  intro expression hevaluable c c' hagree
  obtain ⟨m, m', hm, hm', h⟩ := agreeOffIdentity_modelDump hagree
  rw [hrun, hm, hm']
  unfold isTokenFree at hevaluable
  unfold semFirst
  cases hparse : TokenFree.parseCondition expression.toList fuel with
  | error e => rfl
  | ok node =>
    rw [hparse] at hevaluable
    obtain ⟨u, hsafe⟩ := exists_ok_of_isOk hevaluable
    dsimp only
    rw [TokenFree.sem_of_assertSafe (literals expression) primitives h expression.toList hsafe]

/-! ## What a fire was allowed on -/

/-- What the decision read of a fire that it let through. -/
structure FireFetched (s : Snapshot) (key : String) (claims : JsonObject) (data : AuthData) :
    Prop where
  policy : s.fetchPolicy key = .ok data.policy
  context : s.liveContext key = .ok data.context
  live : isLive data.policy = true
  owner : readOwner s claims = .ok data.ownerPolicy
  scopes : data.scopes = match data.ownerPolicy with
    | some ownerPolicy => effectiveScopes data.policy.scopes ownerPolicy.scopes
    | none => data.policy.scopes

theorem readOwner_eq_ok {ownerPolicy : Option AccessPolicy}
    (h : readOwner s claims = .ok ownerPolicy) :
    stringMember claims ownerUserIdClaim = .ok none ∧ ownerPolicy = none ∨
      ∃ owner policy, stringMember claims ownerUserIdClaim = .ok (some owner) ∧
        s.fetchPolicy owner = .ok policy ∧ isLive policy = true ∧ ownerPolicy = some policy := by
  unfold readOwner at h
  simp only [bind_eq_ok, mapError_eq_ok] at h
  obtain ⟨owner, howner, h⟩ := h
  cases owner with
  | none => exact .inl ⟨howner, (Except.ok.inj h).symm⟩
  | some owner =>
    simp only [bind_eq_ok, mapError_eq_ok, ensure_eq_ok, Bool.not_eq_true', pure_eq_ok] at h
    obtain ⟨policy, hpolicy, _, henabled, _, hempty, h⟩ := h
    refine .inr ⟨owner, policy, howner, hpolicy, ?_, (Except.ok.inj h).symm⟩
    unfold isLive
    rw [henabled, hempty]
    rfl

/-- The backend reads for the principal's token what the decision read for the fire. -/
theorem fetchAuthData_of_fire {data : AuthData} {version : ℕ} (h : FireFetched s key claims data)
    (hversion : s.routes.policyVersion = .ok version) (htoken : token.clientId = key)
    (hclaims : Json.member token.claims ownerUserIdClaim = Json.member claims ownerUserIdClaim) :
    fetchAuthData s token = .ok data := by
  have hstring : stringMember token.claims ownerUserIdClaim =
      stringMember claims ownerUserIdClaim := by
    unfold stringMember
    rw [hclaims]
  have hget {userId : String} {policy : AccessPolicy}
      (hpolicy : s.fetchPolicy userId = .ok policy) : s.getPolicy userId = .ok policy :=
    getPolicy_eq_ok.mpr ⟨⟨version, hversion⟩, hpolicy⟩
  obtain ⟨policy, context, ownerPolicy, scopes⟩ := data
  obtain ⟨hpolicy, hcontext, hlive, howner, hscopes⟩ := h
  subst htoken
  obtain ⟨hnone, hownerPolicy⟩ | ⟨owner, policy', hsome, hfetch, hownerLive, hownerPolicy⟩ :=
    readOwner_eq_ok howner
  · dsimp only at hownerPolicy hscopes hpolicy hcontext hlive
    subst hownerPolicy
    subst hscopes
    exact (fetchAuthData_unowned (hstring.trans hnone)).mpr
      ⟨policy, context, hget hpolicy, hcontext, hlive, rfl⟩
  · dsimp only at hownerPolicy hscopes hpolicy hcontext hlive
    subst hownerPolicy
    subst hscopes
    exact (fetchAuthData_owned (hstring.trans hsome)).mpr
      ⟨policy, context, policy', hget hpolicy, hcontext, hlive, hget hfetch, hownerLive, rfl⟩

/-- A condition that a fire has passed holds of the request's context. -/
theorem holds_of_conditionPass {principal : String} {policy : AccessPolicy}
    {c c' : JqAuthContext} {u : Unit} (hreads : ReadsNoClaims s.evaluator evaluable)
    (hagree : AgreeOffClaims c c')
    (h : conditionPass s evaluable true principal policy c = .ok u) :
    s.evaluator.Holds policy c' := by
  simp only [conditionPass, bind_eq_ok, mapError_eq_ok, ensure_eq_ok, Bool.not_true,
    Bool.false_or, Bool.or_eq_true, beq_iff_eq] at h
  obtain ⟨expression, hrender, _, hevaluable, henforce⟩ := h
  refine Evaluator.holds_iff.mpr ⟨expression, hrender, ?_⟩
  unfold Evaluator.enforce at henforce ⊢
  by_cases hempty : expression = ""
  · rwa [if_pos hempty] at henforce ⊢
  · rw [if_neg hempty] at henforce ⊢
    rwa [hreads expression (hevaluable.resolve_left hempty) c c' hagree] at henforce

/-- What a fire that the decision let through has passed. -/
theorem authorizeCaller_fire {ids : List String} {u : Unit}
    (h : authorizeCaller s evaluable (fireCaller key fingerprint claims) key path method route true
      ids = .ok u) :
    ∃ data, FireFetched s key claims data ∧
      (isPublicOnly s.settings.publicResourceId ids = true ∨
        coversAll s.settings.publicResourceId ids data.scopes = true) ∧
      conditionPass s evaluable true key data.policy
        (callerContext s key claims data.scopes data.policy data.context method path) = .ok () ∧
      ownerConditionPass s evaluable true key claims data.ownerPolicy data.context method path =
        .ok () ∧
      ∃ cause, roleLevelDecisionForRoute s.levelStore data.policy data.ownerPolicy route method =
        .ok (true, cause) := by
  simp only [authorizeCaller, bind_eq_ok, mapError_eq_ok, ensure_eq_ok, if_true, Bool.not_eq_true',
    Bool.or_eq_true] at h
  obtain ⟨policy, hpolicy, context, hcontext, _, henabled, _, hfire, ownerPolicy, howner, _,
    hscopes, _, hkey, _, hownerHolds, hlevel⟩ := h
  have hlive : isLive policy = true := by
    simp only [assertFirePolicy, bind_eq_ok, ensure_eq_ok, Bool.not_eq_true'] at hfire
    obtain ⟨_, hempty, _⟩ := hfire
    unfold isLive
    rw [henabled, hempty]
    rfl
  exact ⟨⟨policy, context, ownerPolicy, _⟩, ⟨hpolicy, hcontext, hlive, howner, rfl⟩, hscopes, hkey,
    hownerHolds, routeLevelPass_eq_ok.mp hlevel⟩

theorem authorizePinnedRoute_fire {u : Unit} (hwf : WellFormed path)
    (hpublic : isAlwaysPublicPath s.settings path = false)
    (h : authorizePinnedRoute s evaluable (fireCaller key fingerprint claims) key path method route
      true = .ok u) :
    ∃ version ids, s.routes.policyVersion = .ok version ∧
      s.verifier.resolveResourceIds s.routes path none (some version) = .ok ids ∧ ids ≠ [] ∧
      authorizeCaller s evaluable (fireCaller key fingerprint claims) key path method route true
        ids = .ok () := by
  simp only [authorizePinnedRoute, bind_eq_ok, mapError_eq_ok, ensure_eq_ok, bne_iff_ne,
    canonicalizePath_of_wellFormed hwf] at h
  obtain ⟨version, hversion, ids, hids, _, hne, canonical', hcanonical, h⟩ := h
  obtain rfl := Except.ok.inj hcanonical
  rw [isAlwaysPublicPath_of_wellFormed s.settings hwf] at hpublic
  rw [if_neg (by simp [hpublic])] at h
  exact ⟨version, ids, hversion, hids, hne, h⟩

/-- What a fire is allowed on past the always-public prefixes, the HTTP edge admits of the same
principal on the same path. -/
theorem admits_of_fire (hreads : ReadsNoClaims s.evaluator evaluable) (hwf : WellFormed path)
    (hroute : resolveRouteMeta s.verifier.recorded path (some method) = .ok (some route))
    (hpublic : isAlwaysPublicPath s.settings path = false)
    (h : authorizePinnedRoute s evaluable (fireCaller key fingerprint claims) key path method route
      true = .ok ())
    (htoken : token.clientId = key)
    (hclaims : Json.member token.claims ownerUserIdClaim = Json.member claims ownerUserIdClaim) :
    ∃ data, Admits s token (some method) path data := by
  obtain ⟨version, ids, hversion, hids, hne, h⟩ := authorizePinnedRoute_fire hwf hpublic h
  obtain ⟨data, hfetched, hopens, hkey, howner, cause, hlevel⟩ := authorizeCaller_fire h
  have hfetch := fetchAuthData_of_fire hfetched hversion htoken hclaims
  subst htoken
  have hconditions : ConditionsHold s token data (some method) path := by
    refine ⟨holds_of_conditionPass hreads ⟨rfl, hclaims.symm⟩ hkey, fun ownerPolicy hpolicy => ?_⟩
    rw [hpolicy] at howner
    by_cases hcondition : ownerPolicy.hasCondition = true
    · simp only [ownerConditionPass, if_pos hcondition] at howner
      exact holds_of_conditionPass hreads ⟨rfl, hclaims.symm⟩ howner
    · exact .inl ((Bool.not_eq_true _).mp hcondition)
  refine ⟨data, hfetch, hconditions, ⟨⟨version, hversion⟩, cause, ?_⟩,
    .inr ⟨ids, ?_, .inr ⟨hne, hopens⟩⟩⟩
  · rw [roleLevelDecision_of_route s.levelStore hroute]
    exact hlevel
  · exact resolveResourceIds_method hversion hids hne

/-! ## The condition -/

/-- The agent's path resolves: to no route, or to the run door for the agent's name, and then the
HTTP edge is fed that path. -/
structure ReachesDoor (v : Verifier) (checks : NetlocChecks) (agentName : Path) (target : Target) :
    Prop where
  resolves : ∃ found, agentRunRoute v.recorded agentName = .ok found
  door : ∀ route, agentRunRoute v.recorded agentName = .ok (some route) →
    IsRunDoor route agentName ∧
      FedAsSynthesized v.settings checks target (agentRunPath agentName)

theorem authorizeExecutionAgentRun_of_enabled (henable : s.settings.enable = true) :
    authorizeExecutionAgentRun s evaluable (fireCaller key fingerprint claims) agentName =
      agentRunRoute s.verifier.recorded agentName >>= fun
        | none => .error (.permissionDenied ("access denied: POST " ++
            String.ofList (agentRunPath agentName) ++ " does not resolve to a registered route"))
        | some route => authorizePinnedRoute s evaluable (fireCaller key fingerprint claims) key
            (agentRunPath agentName) "POST" route true := by
  unfold authorizeExecutionAgentRun
  rw [henable]
  rfl

theorem resolveRouteMeta_of_isRunDoor {recorded : List RouteMetadata}
    (hroute : agentRunRoute recorded agentName = .ok (some route))
    (hdoor : IsRunDoor route agentName) :
    resolveRouteMeta recorded (agentRunPath agentName) (some "POST") = .ok (some route) := by
  simp only [agentRunRoute, bind_eq_ok, mapError_eq_ok] at hroute
  obtain ⟨canonical', hcanonical, hfound⟩ := hroute
  rw [hdoor.parameter.2] at hcanonical
  obtain rfl := Except.ok.inj hcanonical
  exact hfound

/-! ## Refusals -/

/-- What is raised is a `PermissionDenied`. -/
def OnlyDenies {α : Type} (x : Except CheckError α) : Prop :=
  ∀ e, x = .error e → ∃ text, e = .permissionDenied text

section

variable {ε α β : Type}

theorem OnlyDenies.ok (a : α) : OnlyDenies (.ok a) := fun _ h => nomatch h

theorem OnlyDenies.denied (text : String) :
    OnlyDenies (.error (.permissionDenied text) : Except CheckError α) := by
  intro e h
  cases h
  exact ⟨text, rfl⟩

theorem OnlyDenies.bind {x : Except CheckError α} {f : α → Except CheckError β}
    (hx : OnlyDenies x) (hf : ∀ a, OnlyDenies (f a)) : OnlyDenies (x >>= f) := by
  intro e h
  obtain h | ⟨a, -, h⟩ := bind_eq_error.mp h
  · exact hx e h
  · exact hf a e h

theorem OnlyDenies.mapError {x : Except ε α} {f : ε → CheckError}
    (hf : ∀ e, ∃ text, f e = .permissionDenied text) : OnlyDenies (x.mapError f) := by
  intro e h
  cases x with
  | ok a => cases h
  | error e' =>
    cases h
    exact hf e'

theorem OnlyDenies.ensure (condition : Bool) (text : String) :
    OnlyDenies (Lib.ensure condition (.permissionDenied text)) := by
  intro e h
  obtain ⟨-, rfl⟩ := ensure_eq_error.mp h
  exact ⟨text, rfl⟩

end

theorem assertFirePolicy_denies (caller : CallerIdentity) (userId : String)
    (policy : AccessPolicy) : OnlyDenies (assertFirePolicy caller userId policy) := by
  refine .bind (.ensure _ _) fun _ => ?_
  split
  · exact .denied _
  · split
    · exact .ensure _ _
    · exact .denied _

theorem readOwner_denies (s : Snapshot) (claims : JsonObject) :
    OnlyDenies (readOwner s claims) := by
  refine .bind (.mapError fun _ => ⟨_, rfl⟩) fun owner => ?_
  cases owner with
  | none => exact .ok _
  | some owner =>
    exact .bind (.mapError fun _ => ⟨_, rfl⟩) fun policy =>
      .bind (.ensure _ _) fun _ => .bind (.ensure _ _) fun _ => .ok _

theorem conditionPass_denies (s : Snapshot) (isExecutionFire : Bool) (principal : String)
    (policy : AccessPolicy) (context : JqAuthContext) :
    OnlyDenies (conditionPass s evaluable isExecutionFire principal policy context) := by
  refine .bind (.mapError fun _ => ⟨_, rfl⟩) fun condition => .bind (.ensure _ _) fun _ =>
    .mapError fun e => ?_
  cases e with
  | violation text => exact ⟨_, rfl⟩
  | evaluation text => exact ⟨_, rfl⟩

theorem ownerConditionPass_denies (s : Snapshot) (isExecutionFire : Bool) (userId : String)
    (claims : JsonObject) (ownerPolicy : Option AccessPolicy) (context : JsonObject)
    (method : String) (path : Path) :
    OnlyDenies (ownerConditionPass s evaluable isExecutionFire userId claims ownerPolicy context
      method path) := by
  cases ownerPolicy with
  | none => exact .ok _
  | some ownerPolicy =>
    show OnlyDenies (if ownerPolicy.hasCondition then _ else _)
    split_ifs
    · exact conditionPass_denies s _ _ _ _
    · exact .ok _

theorem routeLevelPass_denies (s : Snapshot) (userId : String) (policy : AccessPolicy)
    (ownerPolicy : Option AccessPolicy) (route : RouteMetadata) (method : String) (path : Path) :
    OnlyDenies (routeLevelPass s userId policy ownerPolicy route method path) := by
  unfold routeLevelPass
  split
  · exact .denied _
  · exact .ok _
  · exact .denied _

theorem authorizeCaller_denies (s : Snapshot) (caller : CallerIdentity) (userId : String)
    (path : Path) (method : String) (route : RouteMetadata) (isExecutionFire : Bool)
    (ids : List String) :
    OnlyDenies (authorizeCaller s evaluable caller userId path method route isExecutionFire
      ids) := by
  refine .bind (.mapError fun _ => ⟨_, rfl⟩) fun policy =>
    .bind (.mapError fun _ => ⟨_, rfl⟩) fun context => .bind (.ensure _ _) fun _ => ?_
  have hrest : ∀ _ : Unit, OnlyDenies (do
      let claims := caller.claims.getD []
      let ownerPolicy ← readOwner s claims
      let scopes := decisionScopes caller isExecutionFire policy ownerPolicy
      ensure (isPublicOnly s.settings.publicResourceId ids ||
          coversAll s.settings.publicResourceId ids scopes)
        (.permissionDenied "access denied: insufficient scope")
      conditionPass s evaluable isExecutionFire userId policy
        (callerContext s userId claims scopes policy context method path)
      ownerConditionPass s evaluable isExecutionFire userId claims ownerPolicy context method path
      routeLevelPass s userId policy ownerPolicy route method path) := fun _ =>
    .bind (readOwner_denies s _) fun ownerPolicy => .bind (.ensure _ _) fun _ =>
      .bind (conditionPass_denies s _ _ _ _) fun _ =>
        .bind (ownerConditionPass_denies s _ _ _ _ _ _ _) fun _ =>
          routeLevelPass_denies s _ _ _ _ _ _
  split_ifs
  · exact .bind (assertFirePolicy_denies _ _ _) hrest
  · exact hrest ()

/-- What the decision raises past the route is a `PermissionDenied`. -/
theorem authorizePinnedRoute_denies (s : Snapshot) (caller : CallerIdentity) (userId : String)
    (hwf : WellFormed path) (method : String) (route : RouteMetadata) (isExecutionFire : Bool) :
    OnlyDenies (authorizePinnedRoute s evaluable caller userId path method route
      isExecutionFire) := by
  unfold authorizePinnedRoute
  rw [canonicalizePath_of_wellFormed hwf]
  refine .bind (.mapError fun _ => ⟨_, rfl⟩) fun version =>
    .bind (.mapError fun _ => ⟨_, rfl⟩) fun ids => .bind (.ensure _ _) fun _ => ?_
  show OnlyDenies (if isAlwaysPublicPrefix s.settings (canonical path) then _ else _)
  split_ifs
  · exact .ok _
  · exact authorizeCaller_denies s _ _ _ _ _ _ _

/-! ## The fire against the HTTP edge -/

variable {v : Verifier} {checks : NetlocChecks} {target : Target}

theorem authorizeExecutionAgentRun_eq_ok (henable : s.settings.enable = true) :
    authorizeExecutionAgentRun s evaluable (fireCaller key fingerprint claims) agentName = .ok () ↔
      ∃ route, agentRunRoute s.verifier.recorded agentName = .ok (some route) ∧
        authorizePinnedRoute s evaluable (fireCaller key fingerprint claims) key
          (agentRunPath agentName) "POST" route true = .ok () := by
  rw [authorizeExecutionAgentRun_of_enabled henable, bind_eq_ok]
  constructor
  · rintro ⟨found, hfound, h⟩
    cases found with
    | none => cases h
    | some route => exact ⟨route, hfound, h⟩
  · rintro ⟨route, hroute, h⟩
    exact ⟨some route, hroute, h⟩

theorem httpEdge_of_fire {conn : Connection} (hreads : ReadsNoClaims s.evaluator evaluable)
    (hroute : agentRunRoute s.verifier.recorded agentName = .ok (some route))
    (hdoor : IsRunDoor route agentName)
    (hfed : FedAsSynthesized s.settings s.netlocChecks target (agentRunPath agentName))
    (h : authorizePinnedRoute s evaluable (fireCaller key fingerprint claims) key
      (agentRunPath agentName) "POST" route true = .ok ())
    (htarget : conn.target = { target with path := agentRunPath agentName })
    (hmethod : conn.method = some "POST") (htoken : getAccessToken s conn = .ok (some token))
    (hkey : token.clientId = key)
    (hclaims : Json.member token.claims ownerUserIdClaim = Json.member claims ownerUserIdClaim) :
    (httpEdge s conn).admitted = true := by
  obtain ⟨fed, hurl, hfed⟩ := hfed
  rw [httpEdge_admitted (htarget ▸ hurl) htoken, hmethod]
  split_ifs at hfed ⊢ with hpublic
  · exact (guardOn_alwaysPublic hpublic).mpr hfed
  · subst hfed
    have hwf := (canonicalizePath_eq_ok.mp hdoor.parameter.2).1
    exact admits_of_fire hreads hwf (resolveRouteMeta_of_isRunDoor hroute hdoor)
      ((Bool.not_eq_true _).mp hpublic) h hkey hclaims

theorem agentRunIsDoor_of_reachesDoor
    (hreaches : v.settings.enable = true → ReachesDoor v checks agentName target) :
    AgentRunIsDoor v checks agentName target where
  allowed := by
    intro s evaluable key fingerprint claims hv hchecks henable hreads h
    subst hv hchecks
    obtain ⟨route, hroute, h⟩ := (authorizeExecutionAgentRun_eq_ok henable).mp h
    obtain ⟨hdoor, hfed⟩ := (hreaches henable).door route hroute
    exact ⟨route, hroute, hdoor, fun conn token htarget hmethod htoken hkey hclaims =>
      httpEdge_of_fire hreads hroute hdoor hfed h htarget hmethod htoken hkey hclaims⟩
  refused := by
    intro s evaluable key fingerprint claims e hv hchecks h
    subst hv hchecks
    cases henable : s.verifier.settings.enable with
    | false =>
      unfold authorizeExecutionAgentRun at h
      rw [show s.settings.enable = false from henable] at h
      cases h
    | true =>
      obtain ⟨found, hfound⟩ := (hreaches henable).resolves
      rw [authorizeExecutionAgentRun_of_enabled henable, hfound] at h
      cases found with
      | none =>
        cases h
        exact ⟨_, rfl⟩
      | some route =>
        have hdoor := ((hreaches henable).door route hfound).1
        have hwf := (canonicalizePath_eq_ok.mp hdoor.parameter.2).1
        exact authorizePinnedRoute_denies s _ _ hwf _ _ _ e h

/-! ## A fire that tells two paths apart -/

/-- The policy of an execution key that holds everything. -/
def mintedPolicy : AccessPolicy :=
  { scopes := ["*"], policyData := [(keyFingerprintClaim, .str "mint")] }

/-- The state of `onePathState`, with an execution key. -/
def onePathFire (v : Verifier) (checks : NetlocChecks) (path : Path) : Snapshot :=
  { onePathState v checks path with
    policyBody := fun userId =>
      .ok (some (if userId = "owner" then onePathPolicy path else mintedPolicy)) }

theorem onePathFire_readsNoClaims (v : Verifier) (checks : NetlocChecks) (path : Path) :
    ReadsNoClaims (onePathFire v checks path).evaluator fun _ => true := by
  intro expression _ c c' hagree
  have hpath : c.path = c'.path := by
    rw [← hagree.rest]
  have hanswer : requestPathIs path c.modelDump = requestPathIs path c'.modelDump :=
    Bool.eq_iff_iff.mpr ((requestPathIs_modelDump hpath).trans (requestPathIs_modelDump rfl).symm)
  show Except.ok (some (Json.bool (requestPathIs path c.modelDump))) = _
  rw [hanswer]
  rfl

theorem conditionPass_of_holds {principal : String} {policy : AccessPolicy}
    {context : JqAuthContext} (h : s.evaluator.Holds policy context) :
    conditionPass s (fun _ => true) true principal policy context = .ok () := by
  obtain ⟨expression, hrender, henforce⟩ := Evaluator.holds_iff.mp h
  unfold conditionPass
  rw [hrender]
  show (ensure _ _ >>= fun _ =>
    (s.evaluator.enforce context expression policy.hasCondition).mapError _) = _
  rw [henforce]
  simp [ensure, Except.mapError]

theorem onePathFire_holds_iff {context : JqAuthContext} :
    (onePathFire v checks path).evaluator.Holds (onePathPolicy path) context ↔
      context.path = path := by
  show (onePathState v checks path).evaluator.Holds (onePathPolicy path) context ↔ _
  exact onePathPolicy_holds_iff

theorem onePathFire_authorizes (hwf : WellFormed path) :
    authorizePinnedRoute (onePathFire v checks path) (fun _ => true)
      (fireCaller "key" "mint" onePathToken.claims) "key" path method route true = .ok () := by
  obtain ⟨ids, hids, hne⟩ := onePathState_resolve (v := v) checks hwf
  have hids' : (onePathFire v checks path).verifier.resolveResourceIds
      (onePathFire v checks path).routes path none (some 0) = .ok ids := hids
  have hkey (context : JqAuthContext) : (onePathFire v checks path).evaluator.Holds mintedPolicy
      context := .inl rfl
  have howner (context : JqAuthContext) (hpath : context.path = path) :
      (onePathFire v checks path).evaluator.Holds (onePathPolicy path) context :=
    onePathFire_holds_iff.mpr hpath
  have hlevel : routeLevelPass (onePathFire v checks path) "key" mintedPolicy
      (some (onePathPolicy path)) route method path = .ok () :=
    routeLevelPass_eq_ok.mpr ⟨none, onePathPolicy_level _ rfl⟩
  simp only [authorizePinnedRoute, bind_eq_ok, mapError_eq_ok, ensure_eq_ok, bne_iff_ne,
    canonicalizePath_of_wellFormed hwf]
  refine ⟨0, rfl, ids, hids', (), hne, _, rfl, ?_⟩
  split_ifs
  · rfl
  · simp only [authorizeCaller, bind_eq_ok, mapError_eq_ok, ensure_eq_ok, if_true, Bool.or_eq_true]
    exact ⟨mintedPolicy, rfl, [], rfl, (), rfl, (), rfl, some (onePathPolicy path), rfl, (),
      .inr rfl, (), conditionPass_of_holds (hkey _), (), conditionPass_of_holds (howner _ rfl),
      hlevel⟩

theorem onePathFire_fetchAuthData (v : Verifier) (checks : NetlocChecks) (path : Path) :
    fetchAuthData (onePathFire v checks path) onePathToken =
      .ok ⟨mintedPolicy, [], some (onePathPolicy path), ["*"]⟩ := by
  rw [fetchAuthData_owned rfl]
  exact ⟨mintedPolicy, [], onePathPolicy path, rfl, rfl, rfl, rfl, rfl, rfl⟩

theorem agentRunRoute_raises {recorded : List RouteMetadata} {e : CheckError}
    (h : agentRunRoute recorded agentName = .error e) : ∃ text, e = .raised text := by
  have hraised {α : Type} {x : Except MalformedPathError α} {e : CheckError}
      (h : x.mapError uncaught = .error e) : ∃ text, e = .raised text := by
    cases x with
    | ok a => cases h
    | error e' =>
      cases h
      exact ⟨_, rfl⟩
  obtain h | ⟨_, _, h⟩ := bind_eq_error.mp h
  · exact hraised h
  · exact hraised h

theorem reachesDoor_of_agentRunIsDoor (henable : v.settings.enable = true)
    (h : AgentRunIsDoor v checks agentName target) : ReachesDoor v checks agentName target where
  resolves := by
    cases hroute : agentRunRoute v.recorded agentName with
    | ok found => exact ⟨found, rfl⟩
    | error e =>
      have hrun : authorizeExecutionAgentRun (onePathFire v checks agentName) (fun _ => true)
          (fireCaller "key" "mint" []) agentName = .error e := by
        have hfire : (onePathFire v checks agentName).settings.enable = true := henable
        rw [authorizeExecutionAgentRun_of_enabled hfire]
        show (agentRunRoute v.recorded agentName >>= _) = _
        rw [hroute]
        rfl
      obtain ⟨text, rfl⟩ := agentRunRoute_raises hroute
      obtain ⟨text', hdenied⟩ := h.refused _ _ _ _ _ _ rfl rfl hrun
      cases hdenied
  door := by
    intro route hroute
    have hwf : WellFormed (agentRunPath agentName) := by
      simp only [agentRunRoute, bind_eq_ok, mapError_eq_ok] at hroute
      obtain ⟨canonical', hcanonical, _⟩ := hroute
      exact (canonicalizePath_eq_ok.mp hcanonical).1
    have hrun : authorizeExecutionAgentRun (onePathFire v checks (agentRunPath agentName))
        (fun _ => true) (fireCaller "key" "mint" onePathToken.claims) agentName = .ok () := by
      have hfire : (onePathFire v checks (agentRunPath agentName)).settings.enable = true := henable
      exact (authorizeExecutionAgentRun_eq_ok hfire).mpr
        ⟨route, hroute, onePathFire_authorizes hwf⟩
    obtain ⟨route', hroute', hdoor, hhttp⟩ := h.allowed _ _ _ _ _ rfl rfl henable
      (onePathFire_readsNoClaims v checks _) hrun
    obtain rfl : route' = route :=
      Option.some.inj (Except.ok.inj (hroute'.symm.trans hroute))
    refine ⟨hdoor, ?_⟩
    have htoken : getAccessToken (onePathFire v checks (agentRunPath agentName))
        ⟨{ target with path := agentRunPath agentName }, some "POST", none, some ['k']⟩ =
          .ok (some onePathToken) := rfl
    obtain ⟨fed, hurl, hfed⟩ := fed_of_admitted htoken (hhttp _ _ rfl rfl htoken rfl rfl)
    refine ⟨fed, hurl, ?_⟩
    show if isAlwaysPublicPath (onePathFire v checks (agentRunPath agentName)).settings fed then _
      else _
    split_ifs at hfed ⊢ with hpublic
    · exact hfed
    · obtain ⟨data, hadmits⟩ := hfed
      obtain rfl := Except.ok.inj (hadmits.fetched.symm.trans (onePathFire_fetchAuthData _ _ _))
      exact onePathFire_holds_iff.mp (hadmits.conditions.owner _ rfl)

def agentRunDoor : RouteMetadata :=
  { path := runDoorTemplate, methods := ["POST"], tags := ["agents"], action := .write }

def authoredRunDoor : RouteMetadata :=
  { path := "/api/agents/authored/\x7bname\x7d/runs".toList, methods := ["POST"],
    tags := ["agents"], action := .write }

/-- The path of the authored agent `helper` is mapped to a scope that an execution key holds. -/
def authoredHelper : Snapshot :=
  deployment [authoredRunDoor, agentRunDoor]
    [⟨"/api/agents/authored/helper/runs".toList, "agents", none⟩] []
    [("key", { scopes := ["agents"], policyData := [(keyFingerprintClaim, .str "mint")] })]

theorem authoredHelper_route :
    agentRunRoute authoredHelper.verifier.recorded "authored/helper".toList =
      .ok (some authoredRunDoor) := by
  have hsorted : loadAllRoutes [authoredRunDoor, agentRunDoor] = [authoredRunDoor, agentRunDoor] :=
    List.mergeSort_of_pairwise (by decide +kernel)
  have hrecorded : authoredHelper.verifier.recorded = [authoredRunDoor, agentRunDoor] := rfl
  unfold agentRunRoute resolveRouteMeta
  rw [hrecorded, hsorted]
  decide +kernel

end TaiSkeleton.Authz
