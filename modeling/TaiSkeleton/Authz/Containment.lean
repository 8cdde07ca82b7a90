import TaiSkeleton.AccessControl.Admission
import TaiSkeleton.AccessControl.AnonymousAccess
import TaiSkeleton.Authz.Check

/-!
# The tool edge against the HTTP edge

What the tool edge lets a request's caller dispatch is measured against what the HTTP edge admits
of the same caller, with the operation's method, on the synthesized path. The terms agree; what
can differ is the path the HTTP edge is fed.
-/

namespace TaiSkeleton.Authz

open Lib App AccessControl

variable {s : Snapshot} {token : AccessToken} {data : AuthData} {path : Path} {method : String}
  {route : RouteMetadata} {evaluable : String → Bool}

/-! ## What the terms read -/

theorem getPolicy_eq_ok {userId : String} {policy : AccessPolicy} :
    s.getPolicy userId = .ok policy ↔
      (∃ version, s.routes.policyVersion = .ok version) ∧ s.fetchPolicy userId = .ok policy := by
  unfold Snapshot.getPolicy
  rw [bind_eq_ok]
  constructor
  · rintro ⟨version, hversion, hpolicy⟩
    exact ⟨⟨version, hversion⟩, hpolicy⟩
  · rintro ⟨⟨version, hversion⟩, hpolicy⟩
    exact ⟨version, hversion, hpolicy⟩

/-- What a fetch of the backend tells the tool edge. -/
structure Fetched (s : Snapshot) (token : AccessToken) (data : AuthData) : Prop where
  policy : s.fetchPolicy token.clientId = .ok data.policy
  context : s.liveContext token.clientId = .ok data.context
  enabled : data.policy.isDisabled = false
  owner : readOwner s token.claims = .ok data.ownerPolicy

theorem readOwner_of_live {owner : String} {ownerPolicy : AccessPolicy}
    (hclaim : stringMember token.claims ownerUserIdClaim = .ok (some owner))
    (hpolicy : s.fetchPolicy owner = .ok ownerPolicy) (hlive : isLive ownerPolicy = true) :
    readOwner s token.claims = .ok (some ownerPolicy) := by
  simp only [isLive, Bool.and_eq_true, Bool.not_eq_true'] at hlive
  simp [readOwner, hclaim, hpolicy, mapError_ok, ensure, hlive.1, hlive.2]

theorem fetched_of_fetchAuthData (h : fetchAuthData s token = .ok data) : Fetched s token data := by
  cases hclaim : stringMember token.claims ownerUserIdClaim with
  | error e =>
    unfold fetchAuthData at h
    simp only [bind_eq_ok] at h
    obtain ⟨policy, _, context, _, h⟩ := h
    split_ifs at h
    rw [hclaim] at h
    exact absurd h (by simp)
  | ok owner =>
    cases owner with
    | none =>
      obtain ⟨policy, context, hpolicy, hcontext, hlive, rfl⟩ := (fetchAuthData_unowned hclaim).mp h
      simp only [isLive, Bool.and_eq_true, Bool.not_eq_true'] at hlive
      exact ⟨(getPolicy_eq_ok.mp hpolicy).2, hcontext, hlive.1, by
        simp [readOwner, hclaim, mapError_ok]⟩
    | some owner =>
      obtain ⟨policy, context, ownerPolicy, hpolicy, hcontext, hlive, howner, hownerLive, rfl⟩ :=
        (fetchAuthData_owned hclaim).mp h
      simp only [isLive, Bool.and_eq_true, Bool.not_eq_true'] at hlive
      exact ⟨(getPolicy_eq_ok.mp hpolicy).2, hcontext, hlive.1,
        readOwner_of_live hclaim (getPolicy_eq_ok.mp howner).2 hownerLive⟩

/-! ## The terms of a request's caller -/

/-- The caller of a request, with the claims and the scopes that the backend gave it. -/
def requestCaller (token : AccessToken) (data : AuthData) : CallerIdentity :=
  { userId := some token.clientId, effectiveScopes := some data.scopes,
    claims := some token.claims }

theorem conditionPass_eq_ok {principal : String} {policy : AccessPolicy} {context : JqAuthContext}
    {u : Unit} :
    conditionPass s evaluable false principal policy context = .ok u ↔
      s.evaluator.Holds policy context := by
  rw [Evaluator.holds_iff]
  simp only [conditionPass, bind_eq_ok, mapError_eq_ok, ensure_eq_ok, Bool.not_false,
    Bool.true_or, true_and]
  refine exists_congr fun expression => and_congr_right fun _ => ?_
  constructor
  · rintro ⟨_, h⟩
    exact h
  · intro h
    exact ⟨(), h⟩

theorem ownerConditionPass_eq_ok {userId : String} {claims context : JsonObject}
    {ownerPolicy : Option AccessPolicy} {u : Unit} :
    ownerConditionPass s evaluable false userId claims ownerPolicy context method path = .ok u ↔
      ∀ policy, ownerPolicy = some policy → s.evaluator.Holds policy
        (callerContext s userId claims policy.scopes policy context method path) := by
  cases ownerPolicy with
  | none => simp [ownerConditionPass]
  | some policy =>
    show (if policy.hasCondition then _ else _) = _ ↔ _
    split_ifs with hc
    · simp [conditionPass_eq_ok]
    · have hholds : ∀ context, s.evaluator.Holds policy context :=
        fun _ => .inl (by simpa using hc)
      simp [hholds]

theorem routeLevelPass_eq_ok {userId : String} {policy : AccessPolicy}
    {ownerPolicy : Option AccessPolicy} {u : Unit} :
    routeLevelPass s userId policy ownerPolicy route method path = .ok u ↔
      ∃ cause, roleLevelDecisionForRoute s.levelStore policy ownerPolicy route method =
        .ok (true, cause) := by
  unfold routeLevelPass
  cases roleLevelDecisionForRoute s.levelStore policy ownerPolicy route method with
  | error e => simp
  | ok decision =>
    obtain ⟨allowed, cause⟩ := decision
    cases allowed with
    | false => simp
    | true => simp

/-- The scopes cover the ids, the conditions hold, and the level decision allows the pinned route.
-/
theorem authorizeCaller_eq_ok (hfetched : Fetched s token data) {ids : List String} {u : Unit} :
    authorizeCaller s evaluable (requestCaller token data) token.clientId path method route false
        ids = .ok u ↔
      (isPublicOnly s.settings.publicResourceId ids = true ∨
        coversAll s.settings.publicResourceId ids data.scopes = true) ∧
      ConditionsHold s token data (some method) path ∧
      ∃ cause, roleLevelDecisionForRoute s.levelStore data.policy data.ownerPolicy route method =
        .ok (true, cause) := by
  obtain ⟨hpolicy, hcontext, henabled, howner⟩ := hfetched
  simp only [authorizeCaller, hpolicy, hcontext, requestCaller, mapError_ok, ok_bind, henabled,
    Bool.false_eq_true, if_false, Option.getD_some, howner, decisionScopes, bind_eq_ok,
    ensure_eq_ok, conditionPass_eq_ok, ownerConditionPass_eq_ok, routeLevelPass_eq_ok,
    Bool.or_eq_true]
  constructor
  · rintro ⟨_, _, _, hscopes, _, hkey, _, hownerHolds, hlevel⟩
    exact ⟨hscopes, ⟨hkey, hownerHolds⟩, hlevel⟩
  · rintro ⟨hscopes, ⟨hkey, hownerHolds⟩, hlevel⟩
    exact ⟨(), rfl, (), hscopes, (), hkey, (), hownerHolds, hlevel⟩

/-! ## The pin -/

/-- The pinned route is the one that the level decision of the HTTP edge resolves. -/
theorem resolveRouteMeta_of_ownRoute {op : OperationMetadata} {recorded : List RouteMetadata}
    (h : ownRoute op recorded path method = .ok route) :
    WellFormed path ∧ resolveRouteMeta recorded path (some method) = .ok (some route) := by
  unfold ownRoute at h
  cases htemplate : op.routeTemplate with
  | none => simp [htemplate] at h
  | some template =>
    simp only [htemplate, bind_eq_ok, mapError_eq_ok] at h
    obtain ⟨canonical', hcanonical, found, hfound, h⟩ := h
    cases found with
    | none => exact absurd h (by simp)
    | some route' =>
      simp only [bind_eq_ok, pure_eq_ok] at h
      obtain ⟨_, _, _, _, _, _, h⟩ := h
      obtain rfl := Except.ok.inj h
      refine ⟨(canonicalizePath_eq_ok.mp hcanonical).1, ?_⟩
      unfold resolveRouteMeta at hfound ⊢
      simp only [hcanonical, canonicalizePath_idem hcanonical] at hfound ⊢
      exact hfound

/-! ## The pinned decision -/

theorem authorizePinnedRoute_eq_ok (hfetched : Fetched s token data) (hwf : WellFormed path)
    {u : Unit} :
    authorizePinnedRoute s evaluable (requestCaller token data) token.clientId path method route
        false = .ok u ↔
      ∃ version ids, s.routes.policyVersion = .ok version ∧
        s.verifier.resolveResourceIds s.routes path none (some version) = .ok ids ∧ ids ≠ [] ∧
        (isAlwaysPublicPath s.settings path = true ∨
          isAlwaysPublicPath s.settings path = false ∧
            (isPublicOnly s.settings.publicResourceId ids = true ∨
              coversAll s.settings.publicResourceId ids data.scopes = true) ∧
            ConditionsHold s token data (some method) path ∧
            ∃ cause, roleLevelDecisionForRoute s.levelStore data.policy data.ownerPolicy route
              method = .ok (true, cause)) := by
  simp only [authorizePinnedRoute, bind_eq_ok, mapError_eq_ok, ensure_eq_ok, bne_iff_ne,
    canonicalizePath_of_wellFormed hwf, isAlwaysPublicPath_of_wellFormed s.settings hwf]
  cases hpublic : isAlwaysPublicPrefix s.settings (canonical path) with
  | true =>
    constructor
    · rintro ⟨version, hversion, ids, hids, _, hne, _⟩
      exact ⟨version, ids, hversion, hids, hne, .inl rfl⟩
    · rintro ⟨version, ids, hversion, hids, hne, _⟩
      exact ⟨version, hversion, ids, hids, (), hne, _, rfl, by rw [if_pos hpublic]; rfl⟩
  | false =>
    constructor
    · rintro ⟨version, hversion, ids, hids, _, hne, _, hcanonical, h⟩
      obtain rfl := Except.ok.inj hcanonical
      rw [if_neg (by simp [hpublic]), authorizeCaller_eq_ok hfetched] at h
      exact ⟨version, ids, hversion, hids, hne, .inr ⟨rfl, h⟩⟩
    · rintro ⟨version, ids, hversion, hids, hne, hfalse | ⟨_, h⟩⟩
      · exact absurd hfalse (by simp)
      · refine ⟨version, hversion, ids, hids, (), hne, _, rfl, ?_⟩
        rw [if_neg (by simp [hpublic]), authorizeCaller_eq_ok hfetched]
        exact h

/-- What the tool edge lets through past the always-public prefixes, the HTTP edge does on the
same path. -/
theorem admits_of_authorizePinnedRoute (hfetched : fetchAuthData s token = .ok data)
    (hwf : WellFormed path)
    (hroute : resolveRouteMeta s.verifier.recorded path (some method) = .ok (some route))
    (hpublic : isAlwaysPublicPath s.settings path = false)
    (h : authorizePinnedRoute s evaluable (requestCaller token data) token.clientId path method
      route false = .ok ()) :
    Admits s token (some method) path data := by
  rw [authorizePinnedRoute_eq_ok (fetched_of_fetchAuthData hfetched) hwf] at h
  obtain ⟨version, ids, hversion, hids, hne, htrue | ⟨_, hopens, hconditions, cause, hlevel⟩⟩ := h
  · rw [hpublic] at htrue
    exact absurd htrue (by simp)
  refine ⟨hfetched, hconditions, ⟨⟨version, hversion⟩, cause, ?_⟩, .inr ⟨ids, ?_, .inr ⟨hne, hopens⟩⟩⟩
  · rw [roleLevelDecision_of_route s.levelStore hroute]
    exact hlevel
  · exact resolveResourceIds_method hversion hids hne

/-! ## Containment -/

/-- Whatever the stores hold, where the tool edge lets a request's caller dispatch the operation,
the HTTP edge admits the caller's request with the operation's method for the synthesized path. -/
def ToolEdgeContained (v : Verifier) (checks : NetlocChecks) (op : OperationMetadata)
    (args : CallArguments) (target : Target) : Prop :=
  ∀ (s : Snapshot) (evaluable : String → Bool) (conn : Connection) (token : AccessToken)
    (data : AuthData) (path : Path),
    s.verifier = v → s.netlocChecks = checks → synthesizePath op args = .ok path →
    conn.target = { target with path } → conn.method = some op.method →
    getAccessToken s conn = .ok (some token) → fetchAuthData s token = .ok data →
    check op args s evaluable (requestCaller token data) false = .ok () →
    (httpEdge s conn).admitted = true

/-- The path that the HTTP edge is fed for the synthesized one is always public, and carved out
for no one, or else it is that path. -/
def FedAsSynthesized (settings : Settings) (checks : NetlocChecks) (target : Target)
    (path : Path) : Prop :=
  ∃ fed, ({ target with path } : Target).urlPath checks = .ok fed ∧
    if isAlwaysPublicPath settings fed then fed ∉ settings.authenticatedAlwaysAllowedPaths
    else fed = path

theorem check_eq_ok {op : OperationMetadata} {args : CallArguments}
    (henable : s.settings.enable = true) :
    check op args s evaluable (requestCaller token data) false = .ok () ↔
      ∃ path, synthesizePath op args = .ok path ∧
        ∃ route, ownRoute op s.verifier.recorded path op.method = .ok route ∧
          authorizePinnedRoute s evaluable (requestCaller token data) token.clientId path op.method
            route false = .ok () := by
  unfold check
  rw [henable]
  simp only [requestCaller, Bool.not_true, Bool.or_self, Bool.false_eq_true, if_false, bind_eq_ok]

theorem httpEdge_of_fedAsSynthesized {op : OperationMetadata} {args : CallArguments}
    {conn : Connection} {target : Target} (henable : s.settings.enable = true)
    (hpath : synthesizePath op args = .ok path) (htarget : conn.target = { target with path })
    (hmethod : conn.method = some op.method) (htoken : getAccessToken s conn = .ok (some token))
    (hfetched : fetchAuthData s token = .ok data)
    (hfed : ∀ route, ownRoute op s.verifier.recorded path op.method = .ok route →
      FedAsSynthesized s.settings s.netlocChecks target path)
    (h : check op args s evaluable (requestCaller token data) false = .ok ()) :
    (httpEdge s conn).admitted = true := by
  obtain ⟨p, hp, route, hroute, hauthorized⟩ := (check_eq_ok henable).mp h
  obtain rfl : path = p := Except.ok.inj (hpath.symm.trans hp)
  obtain ⟨fed, hurl, hfed⟩ := hfed route hroute
  rw [httpEdge_admitted (htarget ▸ hurl) htoken, hmethod]
  split_ifs at hfed ⊢ with hpublic
  · exact (guardOn_alwaysPublic hpublic).mpr hfed
  · subst hfed
    obtain ⟨hwf, hmeta⟩ := resolveRouteMeta_of_ownRoute hroute
    exact ⟨data, admits_of_authorizePinnedRoute hfetched hwf hmeta (by simpa using hpublic)
      hauthorized⟩

/-! ## A state that tells two paths apart -/

/-- jq's answer to `.request.path == "…"`. -/
def requestPathIs (path : Path) : JsonValue → Bool
  | .obj members =>
    match Json.member members "request" with
    | .obj request =>
      match Json.member request "path" with
      | .str p => p == String.ofList path
      | _ => false
    | _ => false
  | _ => false

theorem requestPathIs_modelDump {fed : Path} {context : JqAuthContext} (h : context.path = fed) :
    requestPathIs path context.modelDump = true ↔ fed = path := by
  subst h
  show (String.ofList context.path == String.ofList path) = true ↔ _
  rw [beq_iff_eq, String.ofList_inj]

/-- The owner's policy: everything, on one path. -/
def onePathPolicy (path : Path) : AccessPolicy :=
  { scopes := ["*"], condition := some (".request.path == " ++ TokenFree.repr path) }

/-- The path is mapped to a scope; a key that holds everything claims an owner who allows this
path alone. -/
def onePathState (v : Verifier) (checks : NetlocChecks) (path : Path) : Snapshot where
  verifier := v
  providers := .ok [⟨true, fun _ => .ok (some ⟨"key", [("owner_user_id", .str "owner")]⟩)⟩]
  routes := ⟨.ok 0, .ok [⟨canonical path, v.settings.publicResourceId ++ "s", none⟩]⟩
  policyBody userId :=
    .ok (some (if userId = "owner" then onePathPolicy path else { scopes := ["*"] }))
  liveContext _ := .ok []
  resolveRoleGrants _ := .ok none
  evaluator :=
    ⟨fun content _ => .ok content, fun _ _ => .error (.raised "no such template"),
      fun _ context => .ok (some (.bool (requestPathIs path context)))⟩
  netlocChecks := checks
  time := 0

/-- The token of the key. -/
def onePathToken : AccessToken := ⟨"key", [], [("owner_user_id", .str "owner")]⟩

/-- What the backend reads for the key. -/
def onePathData (path : Path) : AuthData :=
  ⟨{ scopes := ["*"] }, [], some (onePathPolicy path), ["*"]⟩

variable {v : Verifier} {checks : NetlocChecks}

theorem onePathState_fetchAuthData (v : Verifier) (checks : NetlocChecks) (path : Path) :
    fetchAuthData (onePathState v checks path) onePathToken = .ok (onePathData path) := by
  rw [fetchAuthData_owned rfl]
  exact ⟨{ scopes := ["*"] }, [], onePathPolicy path, rfl, rfl, rfl, rfl, rfl, rfl⟩

/-- The owner's condition tells the path apart. -/
theorem onePathPolicy_holds_iff {context : JqAuthContext} :
    (onePathState v checks path).evaluator.Holds (onePathPolicy path) context ↔
      context.path = path := by
  constructor
  · rintro (hnone | ⟨_, _, _, result, hresult, htrue⟩)
    · exact absurd hnone (by simp [onePathPolicy, AccessPolicy.hasCondition])
    · obtain rfl := Except.ok.inj hresult
      have hpath : requestPathIs path context.modelDump = true := by
        by_contra hne
        rw [Bool.not_eq_true] at hne
        rw [hne] at htrue
        exact absurd htrue (by simp [AccessControl.isTrue])
      exact (requestPathIs_modelDump rfl).mp hpath
  · intro hpath
    refine .inr ⟨_, rfl, ?_, _, rfl, ?_⟩
    · simp
    · rw [(requestPathIs_modelDump rfl).mpr hpath]
      rfl

theorem onePathState_conditions {m : Option String} {fed : Path} :
    ConditionsHold (onePathState v checks path) onePathToken (onePathData path) m fed ↔
      fed = path := by
  constructor
  · rintro ⟨_, howner⟩
    exact onePathPolicy_holds_iff.mp (howner _ rfl)
  · intro hpath
    refine ⟨.inl rfl, fun ownerPolicy hpolicy => ?_⟩
    obtain rfl := Option.some.inj hpolicy
    exact onePathPolicy_holds_iff.mpr hpath

theorem onePathState_resolve (checks : NetlocChecks) (hwf : WellFormed path) :
    ∃ ids, v.resolveResourceIds (onePathState v checks path).routes path none (some 0) = .ok ids ∧
      ids ≠ [] := by
  cases hpublic : isAlwaysPublicPrefix v.settings (canonical path) with
  | true =>
    refine ⟨[v.settings.publicResourceId], ?_, by simp⟩
    simp only [Verifier.resolveResourceIds, canonicalizePath_of_wellFormed hwf, hpublic, if_true]
  | false =>
    have hcompile : v.patternsCompile
        [⟨canonical path, v.settings.publicResourceId ++ "s", none⟩] = true := rfl
    have hne : v.settings.publicResourceId ++ "s" ≠ v.settings.publicResourceId := by
      intro heq
      have hlength := congrArg String.length heq
      simp at hlength
    have hmem : v.settings.publicResourceId ++ "s" ∈ v.tableIds
        [⟨canonical path, v.settings.publicResourceId ++ "s", none⟩] (canonical path) := by
      refine Verifier.mem_tableIds.mpr ⟨Verifier.mem_grantedIds.mpr (.inl ?_), fun _ => hne⟩
      refine Verifier.mem_foundIds.mpr ⟨⟨canonical path, ?_, by simp [fetchRoute]⟩, by simp⟩
      exact Verifier.mem_matchedUrls.mpr (.inl (.inl rfl))
    refine ⟨_, ?_, List.ne_nil_of_mem hmem⟩
    rw [Verifier.resolveResourceIds_of_table hwf hpublic rfl rfl hcompile,
      if_neg (List.ne_nil_of_mem hmem)]

/-- The level decision allows an admin key whose owner has the one path. -/
theorem onePathPolicy_level (store : LevelStore) {policy : AccessPolicy}
    (hadmin : policy.isAdmin = true) :
    roleLevelDecisionForRoute store policy (some (onePathPolicy path)) route method =
      .ok (true, none) := by
  unfold roleLevelDecisionForRoute
  by_cases hfenced : route.action.isFenced = true
  · rw [if_pos hfenced, if_pos hadmin]
  · rw [if_neg hfenced]
    rfl

theorem onePathState_authorizes (hwf : WellFormed path) :
    authorizePinnedRoute (onePathState v checks path) evaluable
      (requestCaller onePathToken (onePathData path)) "key" path method route false = .ok () := by
  have hfetched := fetched_of_fetchAuthData (onePathState_fetchAuthData v checks path)
  refine (authorizePinnedRoute_eq_ok hfetched hwf).mpr ?_
  obtain ⟨ids, hids, hne⟩ := onePathState_resolve (v := v) checks hwf
  refine ⟨0, ids, rfl, hids, hne, ?_⟩
  cases hpublic : isAlwaysPublicPath (onePathState v checks path).settings path with
  | true => exact .inl rfl
  | false =>
    refine .inr ⟨rfl, .inr (by simp [coversAll, onePathData]),
      onePathState_conditions.mpr rfl, ?_⟩
    exact ⟨none, onePathPolicy_level _ rfl⟩

/-- The path that an admitted request of a verified caller was decided on. -/
theorem fed_of_admitted {conn : Connection} (htoken : getAccessToken s conn = .ok (some token))
    (h : (httpEdge s conn).admitted = true) :
    ∃ fed, conn.target.urlPath s.netlocChecks = .ok fed ∧
      if isAlwaysPublicPath s.settings fed then fed ∉ s.settings.authenticatedAlwaysAllowedPaths
      else ∃ data, Admits s token conn.method fed data := by
  cases hurl : conn.target.urlPath s.netlocChecks with
  | error e =>
    rw [httpEdge_eq, fedPaths, hurl] at h
    exact absurd h (by simp [Outcome.admitted])
  | ok fed =>
    rw [httpEdge_admitted hurl htoken] at h
    refine ⟨fed, rfl, ?_⟩
    split_ifs at h ⊢ with hpublic
    · exact (guardOn_alwaysPublic hpublic).mp h
    · exact h

theorem fedAsSynthesized_of_contained {op : OperationMetadata} {args : CallArguments}
    {target : Target} (henable : v.settings.enable = true)
    (hcontained : ToolEdgeContained v checks op args target)
    (hpath : synthesizePath op args = .ok path)
    (hroute : ownRoute op v.recorded path op.method = .ok route) :
    FedAsSynthesized v.settings checks target path := by
  have hwf := (resolveRouteMeta_of_ownRoute hroute).1
  have htoken : getAccessToken (onePathState v checks path)
      ⟨{ target with path }, some op.method, none, some ['k']⟩ = .ok (some onePathToken) := rfl
  have hcheck : check op args (onePathState v checks path) (fun _ => true)
      (requestCaller onePathToken (onePathData path)) false = .ok () := by
    rw [check_eq_ok (show (onePathState v checks path).settings.enable = true from henable)]
    exact ⟨path, hpath, route, hroute, onePathState_authorizes hwf⟩
  have hadmitted := hcontained (onePathState v checks path) _ _ onePathToken (onePathData path)
    path rfl rfl hpath rfl rfl htoken (onePathState_fetchAuthData _ _ _) hcheck
  obtain ⟨fed, hurl, hfed⟩ := fed_of_admitted htoken hadmitted
  refine ⟨fed, hurl, ?_⟩
  show if isAlwaysPublicPath (onePathState v checks path).settings fed then _ else _
  split_ifs at hfed ⊢ with hpublic
  · exact hfed
  · obtain ⟨data, hadmits⟩ := hfed
    have hdata : data = onePathData path :=
      Except.ok.inj (hadmits.fetched.symm.trans (onePathState_fetchAuthData _ _ _))
    rw [hdata] at hadmits
    exact onePathState_conditions.mp hadmits.conditions

/-- The tool edge is contained in the HTTP edge exactly where every path that the operation is
pinned on is fed as synthesized. -/
theorem toolEdgeContained_iff {op : OperationMetadata} {args : CallArguments} {target : Target}
    (henable : v.settings.enable = true) :
    ToolEdgeContained v checks op args target ↔
      ∀ path route, synthesizePath op args = .ok path →
        ownRoute op v.recorded path op.method = .ok route →
        FedAsSynthesized v.settings checks target path := by
  constructor
  · intro hcontained path route hpath hroute
    exact fedAsSynthesized_of_contained henable hcontained hpath hroute
  · intro hfed s evaluable conn token data path hv hchecks hpath htarget hmethod htoken hfetched
      hcheck
    subst hv hchecks
    exact httpEdge_of_fedAsSynthesized henable hpath htarget hmethod htoken hfetched
      (fun route hroute => hfed path route hpath hroute) hcheck

/-- An operation that reads one report. -/
def getReport : OperationMetadata := ⟨"get_report", some "/api/reports/{id}".toList, some "GET"⟩

/-- The route it is registered at. -/
def reportRoute : RouteMetadata :=
  { path := "/api/reports/{id}".toList, methods := ["GET"], tags := [], action := .read }

/-- A report that the key may read is mapped, under a name with a `?` in it. -/
def questionReport : Snapshot :=
  deployment [reportRoute] [⟨"/api/reports/a?b".toList, "reports", none⟩]
    [("sk-key".toList, ⟨"key", []⟩)] [("key", { scopes := ["reports"] })]

theorem getReport_contained :
    ToolEdgeContained ⟨{}, literalRegexes, [reportRoute]⟩ ⟨fun _ => true, fun _ => true⟩ getReport
      [("id", "7".toList)] ⟨.http, "localhost".toList, [], []⟩ := by
  refine (toolEdgeContained_iff rfl).mpr ?_
  intro path route hpath _
  obtain rfl : "/api/reports/7".toList = path := Except.ok.inj hpath
  exact ⟨"/api/reports/7".toList, by decide +kernel, by decide +kernel⟩

/-- The tool edge reads the name, the HTTP edge what is before its `?`. -/
theorem getReport_question_not_contained :
    getAccessToken questionReport (keyRequest "GET" "/api/reports/a?b".toList "sk-key".toList) =
      .ok (some ⟨"key", [], []⟩) ∧
    fetchAuthData questionReport ⟨"key", [], []⟩ =
      .ok ⟨{ scopes := ["reports"] }, [], none, ["reports"]⟩ ∧
    synthesizePath getReport [("id", "a?b".toList)] = .ok "/api/reports/a?b".toList ∧
    check getReport [("id", "a?b".toList)] questionReport (fun _ => true)
      (requestCaller ⟨"key", [], []⟩ ⟨{ scopes := ["reports"] }, [], none, ["reports"]⟩) false =
        .ok () ∧
    (httpEdge questionReport (keyRequest "GET" "/api/reports/a?b".toList
      "sk-key".toList)).admitted = false :=
  ⟨rfl, rfl, rfl, by decide +kernel, by decide +kernel⟩

end TaiSkeleton.Authz
