import TaiSkeleton.AccessControl.Middleware

/-!
# What the edge admits

The decisions of the backend and of the guard opened once: for a caller whose credential verifies,
the edge admits a request exactly where the stores answer for a live caller, the conditions and the
level decision hold, and the guard opens for the scopes.
-/

namespace TaiSkeleton.AccessControl

open Lib App

variable {s : Snapshot} {conn : Connection} {token : AccessToken} {data : AuthData}
  {method : Option String} {path : Path}

/-! ## The terms of the decision -/

/-- The caller's condition holds, and the owner's does for an owned key. -/
structure ConditionsHold (s : Snapshot) (token : AccessToken) (data : AuthData)
    (method : Option String) (path : Path) : Prop where
  key : s.evaluator.Holds data.policy (keyContext s token data method path)
  owner : ∀ ownerPolicy, data.ownerPolicy = some ownerPolicy →
    s.evaluator.Holds ownerPolicy (ownerContext s token data ownerPolicy method path)

/-- The level decision is taken, and allows. -/
def LevelAdmits (s : Snapshot) (policy : AccessPolicy) (ownerPolicy : Option AccessPolicy)
    (method : Option String) (path : Path) : Prop :=
  (∃ version, s.routes.policyVersion = .ok version) ∧
    ∃ cause, roleLevelDecision s.levelStore policy ownerPolicy path method = .ok (true, cause)

/-- The guard opens for an authenticated caller: the path is carved out, or it resolves to no id
and the caller is the admin principal, or to ids that are public only or covered by the scopes. -/
def GuardOpens (s : Snapshot) (isAdmin : Bool) (scopes : List String) (method : Option String)
    (path : Path) : Prop :=
  path ∈ s.settings.authenticatedAlwaysAllowedPaths ∨
    ∃ ids, s.verifier.resolveResourceIds s.routes path method none = .ok ids ∧
      (ids = [] ∧ isAdmin = true ∨ ids ≠ [] ∧
        (isPublicOnly s.settings.publicResourceId ids = true ∨
          coversAll s.settings.publicResourceId ids scopes = true))

/-- The request of an authenticated caller gets through. -/
structure Admits (s : Snapshot) (token : AccessToken) (method : Option String) (path : Path)
    (data : AuthData) : Prop where
  fetched : fetchAuthData s token = .ok data
  conditions : ConditionsHold s token data method path
  level : LevelAdmits s data.policy data.ownerPolicy method path
  guard : GuardOpens s data.policy.isAdmin data.scopes method path

/-! ## The backend -/

/-- What is read for a caller whose claims name no owner. -/
theorem fetchAuthData_unowned (hclaim : stringMember token.claims ownerUserIdClaim = .ok none) :
    fetchAuthData s token = .ok data ↔
      ∃ policy context, s.getPolicy token.clientId = .ok policy ∧
        s.liveContext token.clientId = .ok context ∧ isLive policy = true ∧
        data = ⟨policy, context, none, policy.scopes⟩ := by
  unfold fetchAuthData
  rw [hclaim]
  simp only [bind_eq_ok, ok_bind, pure_eq_ok]
  refine exists_congr fun policy => ?_
  constructor
  · rintro ⟨hpolicy, context, hcontext, h⟩
    split_ifs at h with hlive
    exact ⟨context, hpolicy, hcontext, by simpa using hlive, (Except.ok.inj h).symm⟩
  · rintro ⟨context, hpolicy, hcontext, hlive, rfl⟩
    exact ⟨hpolicy, context, hcontext, by simp [hlive]⟩

/-- What is read for a key whose claims name an owner. -/
theorem fetchAuthData_owned {owner : String}
    (hclaim : stringMember token.claims ownerUserIdClaim = .ok (some owner)) :
    fetchAuthData s token = .ok data ↔
      ∃ policy context ownerPolicy, s.getPolicy token.clientId = .ok policy ∧
        s.liveContext token.clientId = .ok context ∧ isLive policy = true ∧
        s.getPolicy owner = .ok ownerPolicy ∧ isLive ownerPolicy = true ∧
        data = ⟨policy, context, some ownerPolicy,
          effectiveScopes policy.scopes ownerPolicy.scopes⟩ := by
  unfold fetchAuthData
  rw [hclaim]
  simp only [bind_eq_ok, ok_bind, pure_eq_ok]
  refine exists_congr fun policy => ?_
  constructor
  · rintro ⟨hpolicy, context, hcontext, h⟩
    split_ifs at h with hlive
    obtain ⟨ownerPolicy, howner, h⟩ := bind_eq_ok.mp h
    split_ifs at h with hownerLive
    exact ⟨context, ownerPolicy, hpolicy, hcontext, by simpa using hlive, howner,
      by simpa using hownerLive, (Except.ok.inj h).symm⟩
  · rintro ⟨context, ownerPolicy, hpolicy, hcontext, hlive, howner, hownerLive, rfl⟩
    exact ⟨hpolicy, context, hcontext, by simp [hlive, howner, hownerLive, ok_bind]⟩

theorem enforcePolicy_eq_ok {policy : AccessPolicy} {context : JqAuthContext} :
    enforcePolicy s policy context = .ok () ↔ s.evaluator.Holds policy context := by
  rw [Evaluator.holds_iff]
  unfold enforcePolicy
  cases s.evaluator.renderCondition policy with
  | error e => simp
  | ok expression =>
    simp only [Except.ok.injEq, exists_eq_left']
    cases s.evaluator.enforce context expression policy.hasCondition with
    | error e => simp
    | ok u => simp

theorem enforceConditions_eq_ok :
    enforceConditions s token data method path = .ok () ↔
      ConditionsHold s token data method path := by
  unfold enforceConditions
  rw [bind_eq_ok]
  constructor
  · rintro ⟨⟨⟩, hkey, howner⟩
    refine ⟨enforcePolicy_eq_ok.mp hkey, ?_⟩
    intro ownerPolicy hpolicy
    rw [hpolicy] at howner
    cases hc : ownerPolicy.hasCondition with
    | false => exact .inl hc
    | true =>
      simp only [hc, if_true] at howner
      exact enforcePolicy_eq_ok.mp howner
  · rintro ⟨hkey, howner⟩
    refine ⟨(), enforcePolicy_eq_ok.mpr hkey, ?_⟩
    cases hpolicy : data.ownerPolicy with
    | none => rfl
    | some ownerPolicy =>
      show (if ownerPolicy.hasCondition then _ else _) = _
      split_ifs with hc
      · exact enforcePolicy_eq_ok.mpr (howner ownerPolicy hpolicy)
      · rfl

theorem levelPass_eq_ok :
    levelPass s data method path = .ok () ↔
      LevelAdmits s data.policy data.ownerPolicy method path := by
  unfold levelPass LevelAdmits
  cases s.routes.policyVersion with
  | error e => simp
  | ok version =>
    cases roleLevelDecision s.levelStore data.policy data.ownerPolicy path method with
    | error e => simp
    | ok decision =>
      obtain ⟨allowed, cause⟩ := decision
      cases allowed with
      | false => simp
      | true => simp

/-- The credentials that `authenticate` gives a verified caller. -/
def AuthData.credentials (data : AuthData) (token : AccessToken) : Credentials :=
  ⟨data.scopes, some ⟨{ token with scopes := data.scopes }, data.policy.isAdmin⟩⟩

theorem authenticateOn_eq_ok {credentials : Credentials}
    (hpublic : isAlwaysPublicPath s.settings path = false)
    (htoken : getAccessToken s conn = .ok (some token)) :
    authenticateOn s conn path path path = .ok credentials ↔
      ∃ data, fetchAuthData s token = .ok data ∧
        ConditionsHold s token data conn.method path ∧
        LevelAdmits s data.policy data.ownerPolicy conn.method path ∧
        credentials = data.credentials token := by
  unfold authenticateOn
  rw [hpublic, htoken]
  simp only [Bool.false_eq_true, if_false, ok_bind]
  cases fetchAuthData s token with
  | error e => simp
  | ok data =>
    simp only [bind_eq_ok, pure_eq_ok]
    constructor
    · rintro ⟨⟨⟩, hconditions, ⟨⟩, hlevel, heq⟩
      exact ⟨data, rfl, enforceConditions_eq_ok.mp hconditions, levelPass_eq_ok.mp hlevel,
        (Except.ok.inj heq).symm⟩
    · rintro ⟨d, hd, hconditions, hlevel, rfl⟩
      obtain rfl := Except.ok.inj hd
      exact ⟨(), enforceConditions_eq_ok.mpr hconditions, (), levelPass_eq_ok.mpr hlevel, rfl⟩

/-! ## The guard -/

theorem guardOn_admitted (token : AccessToken) (data : AuthData) :
    (guardOn s method path path (data.credentials token)).admitted = true ↔
      GuardOpens s data.policy.isAdmin data.scopes method path := by
  unfold guardOn GuardOpens
  by_cases hcarve : path ∈ s.settings.authenticatedAlwaysAllowedPaths
  · simp [hcarve, AuthData.credentials, Outcome.admitted]
  · simp only [hcarve, false_or, if_false]
    cases s.verifier.resolveResourceIds s.routes path method none with
    | error e => simp [Outcome.admitted]
    | ok ids =>
      cases ids with
      | nil =>
        cases hadmin : data.policy.isAdmin with
        | false => simp [AuthData.credentials, isAdminUser, Outcome.admitted, hadmin]
        | true => simp [AuthData.credentials, isAdminUser, Outcome.admitted, hadmin]
      | cons id ids =>
        by_cases hpublic : isPublicOnly s.settings.publicResourceId (id :: ids) = true
        · simp [hpublic, Outcome.admitted]
        · by_cases hcovers :
            coversAll s.settings.publicResourceId (id :: ids) data.scopes = true
          · simp [hpublic, hcovers, AuthData.credentials, Outcome.admitted]
          · simp [hpublic, hcovers, AuthData.credentials, Outcome.admitted]

/-! ## The edge -/

/-- How the edge decides on a verified caller's request. -/
theorem httpEdge_admitted (hpath : conn.target.urlPath s.netlocChecks = .ok path)
    (htoken : getAccessToken s conn = .ok (some token)) :
    (httpEdge s conn).admitted = true ↔
      if isAlwaysPublicPath s.settings path then
        (guardOn s conn.method path path anonymous).admitted = true
      else ∃ data, Admits s token conn.method path data := by
  have hedge : httpEdge s conn = httpEdgeOn s conn ⟨path, path, path, path, path⟩ := by
    rw [httpEdge_eq]
    unfold fedPaths
    rw [hpath]
    rfl
  rw [hedge]
  unfold httpEdgeOn
  cases hpublic : isAlwaysPublicPath s.settings path with
  | true => simp [authenticateOn, hpublic]
  | false =>
    simp only [Bool.false_eq_true, if_false]
    cases hauth : authenticateOn s conn path path path with
    | error e =>
      have hnone : ¬ ∃ data, Admits s token conn.method path data := by
        rintro ⟨data, h⟩
        have hok := (authenticateOn_eq_ok hpublic htoken).mpr
          ⟨data, h.fetched, h.conditions, h.level, rfl⟩
        rw [hauth] at hok
        exact absurd hok (by simp)
      cases e <;> simp [handleAuthError, Outcome.admitted, hnone]
    | ok credentials =>
      obtain ⟨data, hfetched, hconditions, hlevel, rfl⟩ :=
        (authenticateOn_eq_ok hpublic htoken).mp hauth
      rw [guardOn_admitted]
      constructor
      · intro hguard
        exact ⟨data, hfetched, hconditions, hlevel, hguard⟩
      · rintro ⟨d, h⟩
        have heq : d = data := Except.ok.inj (h.fetched.symm.trans hfetched)
        exact heq ▸ h.guard

/-! ## A deployment whose stores answer -/

/-- Regular expressions that are their own text, as far as a text has no operator. -/
def literalRegexes : Regexes :=
  ⟨fun _ => true, fun pattern path => pattern.toList == path, fun c => '0' ≤ c && c ≤ '9'⟩

/-- A deployment of the default settings whose stores answer: its registered routes, the rows of
its route table, the identity of each key and the policy of each principal. -/
def deployment (recorded : List RouteMetadata) (table : RouteTable)
    (keys : List (Path × AuthIdentity)) (policies : List (String × AccessPolicy)) : Snapshot where
  verifier := ⟨{}, literalRegexes, recorded⟩
  providers := .ok [⟨true, fun token => .ok (keys.lookup token)⟩]
  routes := ⟨.ok 0, .ok table⟩
  policyBody userId := .ok (policies.lookup userId)
  liveContext _ := .ok []
  resolveRoleGrants _ := .ok none
  evaluator :=
    ⟨fun content _ => .ok content, fun _ _ => .error (.raised "no such template"),
      fun _ _ => .ok none⟩
  netlocChecks := ⟨fun _ => true, fun _ => true⟩
  time := 0

/-- A request to the deployment's host, with a key. -/
def keyRequest (method : String) (path key : Path) : Connection :=
  ⟨⟨.http, "localhost".toList, path, []⟩, some method, none, some key⟩

end TaiSkeleton.AccessControl
