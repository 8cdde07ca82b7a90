import TaiSkeleton.AccessControl.PolicyBody
import TaiSkeleton.Authz.AgentRun

/-!
# The authority of an execution key

A background fire is bound to a user id and to the fingerprint of one mint of its key. Whether the
key carries authority is asked when the fire opens and at every dispatch of a tool that is no
operation; a dispatch of an operation and an agent run ask for the fingerprint among their other
terms. A policy row of another mint answers all of them no.
-/

namespace TaiSkeleton.Authz

open Lib App AccessControl

/-! ## The decisions -/

/-- A fault of a store that nothing catches. -/
def storeFault : Fault → CheckError
  | .raised text => .raised text

/-- `_authority_refusal` -/
def authorityRefusal (executionKey principal defect : String) : CheckError :=
  let key := TokenFree.repr executionKey.toList
  let subject :=
    if principal = executionKey then "execution key " ++ key
    else "owner " ++ TokenFree.repr principal.toList ++ " of execution key " ++ key
  .permissionDenied ("access denied: " ++ subject ++ " " ++ defect)

/-- `assert_policy_matches_fingerprint` -/
def assertPolicyMatchesFingerprint (policy : AccessPolicy)
    (executionKey boundFingerprint : String) : Except CheckError Unit :=
  match Json.member policy.policyData Authz.keyFingerprintClaim with
  | .str live => ensure (live == boundFingerprint)
      (authorityRefusal executionKey executionKey "no longer matches the bound key identity")
  | _ => .error
      (authorityRefusal executionKey executionKey "no longer matches the bound key identity")

variable (s : Snapshot)

/-- `assert_key_carries_authority`; it answers the owner. -/
def assertKeyCarriesAuthority (executionKey boundFingerprint : String) :
    Except CheckError (Option String) := do
  let _ ← s.routes.policyVersion.mapError storeFault
  let policy ← (s.fetchPolicy executionKey).mapError storeFault
  ensure (!policy.isEmpty) (authorityRefusal executionKey executionKey "has no policy")
  ensure (!policy.isDisabled) (authorityRefusal executionKey executionKey "is disabled")
  assertPolicyMatchesFingerprint policy executionKey boundFingerprint
  match ← (stringMember policy.policyData ownerUserIdClaim).mapError storeFault with
  | none => return none
  | some owner =>
    let ownerPolicy ← (s.fetchPolicy owner).mapError storeFault
    ensure (!ownerPolicy.isDisabled) (authorityRefusal executionKey owner "is disabled")
    ensure (!ownerPolicy.isEmpty) (authorityRefusal executionKey owner "has no policy")
    return some owner

/-- `build_execution_identity`: what a fire opens with. -/
def buildExecutionIdentity (executionKey boundFingerprint : String) :
    Except CheckError CallerIdentity :=
  if !s.settings.enable then .ok { userId := some executionKey }
  else do
    let owner ← assertKeyCarriesAuthority s executionKey boundFingerprint
    return fireCaller executionKey boundFingerprint
      (owner.elim [] fun owner => [(ownerUserIdClaim, .str owner)])

/-- The branch of `authorize_execution_tool_call` for a tool that is no operation. -/
def authorizeCapability (identity : CallerIdentity) : Except CheckError Unit :=
  if identity.isInternal then .ok ()
  else
    match identity.userId, identity.executionKeyFingerprint with
    | none, _ => .error (.permissionDenied
        "access denied: no caller identity for an external tool dispatch")
    | some _, none => .error (.permissionDenied
        "access denied: bound execution identity carries no key fingerprint")
    | some userId, some fingerprint => do
      let _ ← assertKeyCarriesAuthority s userId fingerprint
      return ()

/-- `authorize_execution_tool_call`, which the dispatch seam calls under a bound execution identity;
`resolved` is what `resolve_dispatch` answers or raises. -/
def authorizeExecutionToolCall (evaluable : String → Bool) (identity : CallerIdentity)
    (resolved : Except CheckError (Option (OperationMetadata × CallArguments))) :
    Except CheckError Unit :=
  if !s.settings.enable then .ok ()
  else do
    match ← resolved with
    | none => authorizeCapability s identity
    | some (operation, callArguments) =>
      check operation callArguments s evaluable identity true

/-! ## A policy of another mint -/

/-- What the store hands to a decision is `AccessPolicy(**row)`, but for the arguments of its
condition, or the empty policy where there is no row. -/
structure ServedAs (row : Option (PolicyBody JsonValue)) (policy : AccessPolicy) : Prop where
  scopes : policy.scopes = (row.map PolicyBody.scopes).getD []
  condition : policy.condition = row.bind PolicyBody.condition
  conditionId : policy.conditionId = row.bind PolicyBody.conditionId
  policyData : ∀ name, Json.member policy.policyData name =
    (row.bind fun body => body.policyData.get? name).getD .null

/-- A decision that reads the row as the policy of the key. -/
def Serves (key : String) (row : Option (PolicyBody JsonValue)) : Prop :=
  ∀ policy, s.fetchPolicy key = .ok policy → ServedAs row policy

/-- The row is of the mint that stamped the fingerprint. -/
def BearsFingerprint (fingerprint : String) (row : Option (PolicyBody JsonValue)) : Prop :=
  ∃ body, row = some body ∧ keyOf body.policyData = some (.str fingerprint)

instance (fingerprint : String) (row : Option (PolicyBody JsonValue)) :
    Decidable (BearsFingerprint fingerprint row) :=
  decidable_of_iff ((row.bind fun body => keyOf body.policyData) = some (.str fingerprint))
    Option.bind_eq_some_iff

/-- The path of a dispatch is under an always-public prefix, where nobody's policy is read. -/
def PublicPath (path : Path) : Prop :=
  ∃ canonical, canonicalizePath path = .ok canonical ∧
    isAlwaysPublicPrefix s.settings canonical = true

/-- No decision that reads the row acts for a record that is bound to the key and the
fingerprint. -/
structure Refuses (key fingerprint : String) (row : Option (PolicyBody JsonValue)) : Prop where
  authority : ∀ s : Snapshot, Serves s key row →
    ∃ e, assertKeyCarriesAuthority s key fingerprint = .error e
  opening : ∀ s : Snapshot, Serves s key row → s.settings.enable = true →
    ∃ e, buildExecutionIdentity s key fingerprint = .error e
  toolCall : ∀ (s : Snapshot) (evaluable : String → Bool) (claims : JsonObject)
    (resolved : Except CheckError (Option (OperationMetadata × CallArguments))), Serves s key row →
    s.settings.enable = true →
    (∃ e, authorizeExecutionToolCall s evaluable (fireCaller key fingerprint claims) resolved =
      .error e) ∨
    ∃ operation arguments path, resolved = .ok (some (operation, arguments)) ∧
      synthesizePath operation arguments = .ok path ∧ PublicPath s path
  agentRun : ∀ (s : Snapshot) (evaluable : String → Bool) (claims : JsonObject) (agentName : Path),
    Serves s key row → s.settings.enable = true →
    (∃ e, authorizeExecutionAgentRun s evaluable (fireCaller key fingerprint claims) agentName =
      .error e) ∨ PublicPath s (agentRunPath agentName)

variable {s : Snapshot} {key fingerprint : String} {row : Option (PolicyBody JsonValue)}
  {policy : AccessPolicy}

theorem ServedAs.bears (h : ServedAs row policy)
    (hlive : Json.member policy.policyData Authz.keyFingerprintClaim = .str fingerprint) :
    BearsFingerprint fingerprint row := by
  have hmember := h.policyData Authz.keyFingerprintClaim
  rw [hlive] at hmember
  cases hrow : row.bind fun body => body.policyData.get? Authz.keyFingerprintClaim with
  | none =>
    rw [hrow] at hmember
    cases hmember
  | some value =>
    rw [hrow] at hmember
    obtain ⟨body, hbody, hvalue⟩ := Option.bind_eq_some_iff.mp hrow
    exact ⟨body, hbody, hvalue.trans (congrArg some hmember.symm)⟩

theorem bears_of_matches {u : Unit} (h : ServedAs row policy)
    (hmatches : assertPolicyMatchesFingerprint policy key fingerprint = .ok u) :
    BearsFingerprint fingerprint row := by
  unfold assertPolicyMatchesFingerprint at hmatches
  split at hmatches
  · next live hlive =>
    obtain rfl : live = fingerprint := by simpa using ensure_eq_ok.mp hmatches
    exact h.bears hlive
  · cases hmatches

theorem bears_of_assertFirePolicy {claims : JsonObject} {u : Unit} (h : ServedAs row policy)
    (hfire : assertFirePolicy (fireCaller key fingerprint claims) key policy = .ok u) :
    BearsFingerprint fingerprint row := by
  simp only [assertFirePolicy, fireCaller, bind_eq_ok] at hfire
  obtain ⟨-, -, hmatches⟩ := hfire
  split at hmatches
  · next live hlive =>
    obtain rfl : live = fingerprint := by simpa using ensure_eq_ok.mp hmatches
    exact h.bears hlive
  · cases hmatches

theorem bears_of_carriesAuthority {owner : Option String} (h : Serves s key row)
    (hcarries : assertKeyCarriesAuthority s key fingerprint = .ok owner) :
    BearsFingerprint fingerprint row := by
  simp only [assertKeyCarriesAuthority, bind_eq_ok, mapError_eq_ok] at hcarries
  obtain ⟨-, -, policy, hpolicy, -, -, -, -, u, hmatches, -⟩ := hcarries
  exact bears_of_matches (h policy hpolicy) hmatches

/-- Past the always-public prefixes a fire is decided on the row of its own mint. -/
theorem bears_of_authorizePinnedRoute {evaluable : String → Bool} {claims : JsonObject}
    {path : Path} {method : String} {route : RouteMetadata} {u : Unit} (h : Serves s key row)
    (hallowed : authorizePinnedRoute s evaluable (fireCaller key fingerprint claims) key path method
      route true = .ok u) : BearsFingerprint fingerprint row ∨ PublicPath s path := by
  simp only [authorizePinnedRoute, bind_eq_ok, mapError_eq_ok] at hallowed
  obtain ⟨-, -, ids, -, -, -, canonical, hcanonical, hallowed⟩ := hallowed
  split_ifs at hallowed with hpublic
  · exact .inr ⟨canonical, hcanonical, hpublic⟩
  · simp only [authorizeCaller, bind_eq_ok, mapError_eq_ok, if_true] at hallowed
    obtain ⟨policy, hpolicy, -, -, -, -, u, hfire, -⟩ := hallowed
    exact .inl (bears_of_assertFirePolicy (h policy hpolicy) hfire)

theorem bears_of_authorizeCapability (claims : JsonObject) {u : Unit} (h : Serves s key row)
    (hallowed : authorizeCapability s (fireCaller key fingerprint claims) = .ok u) :
    BearsFingerprint fingerprint row := by
  change (assertKeyCarriesAuthority s key fingerprint >>= fun _ => pure ()) = .ok u at hallowed
  obtain ⟨owner, hcarries, -⟩ := bind_eq_ok.mp hallowed
  exact bears_of_carriesAuthority h hcarries

theorem bears_of_check {operation : OperationMetadata} {arguments : CallArguments}
    {evaluable : String → Bool} {claims : JsonObject} {u : Unit} (h : Serves s key row)
    (henable : s.settings.enable = true)
    (hallowed : check operation arguments s evaluable (fireCaller key fingerprint claims) true =
      .ok u) :
    BearsFingerprint fingerprint row ∨
      ∃ path, synthesizePath operation arguments = .ok path ∧ PublicPath s path := by
  unfold check at hallowed
  rw [henable] at hallowed
  change (synthesizePath operation arguments >>= fun path =>
    ownRoute operation s.verifier.recorded path operation.method >>= fun route =>
      authorizePinnedRoute s evaluable (fireCaller key fingerprint claims) key path
        operation.method route true) = .ok u at hallowed
  obtain ⟨path, hpath, hallowed⟩ := bind_eq_ok.mp hallowed
  obtain ⟨route, -, hallowed⟩ := bind_eq_ok.mp hallowed
  exact (bears_of_authorizePinnedRoute h hallowed).imp id fun hpublic => ⟨path, hpath, hpublic⟩

theorem bears_of_toolCall {evaluable : String → Bool} {claims : JsonObject}
    {resolved : Except CheckError (Option (OperationMetadata × CallArguments))} {u : Unit}
    (h : Serves s key row) (henable : s.settings.enable = true)
    (hallowed : authorizeExecutionToolCall s evaluable (fireCaller key fingerprint claims)
      resolved = .ok u) :
    BearsFingerprint fingerprint row ∨
      ∃ operation arguments path, resolved = .ok (some (operation, arguments)) ∧
        synthesizePath operation arguments = .ok path ∧ PublicPath s path := by
  unfold authorizeExecutionToolCall at hallowed
  rw [henable] at hallowed
  obtain ⟨found, rfl, hallowed⟩ := bind_eq_ok.mp hallowed
  cases found with
  | none => exact .inl (bears_of_authorizeCapability claims h hallowed)
  | some dispatch =>
    obtain ⟨operation, arguments⟩ := dispatch
    obtain hbears | ⟨path, hpath, hpublic⟩ := bears_of_check h henable hallowed
    · exact .inl hbears
    · exact .inr ⟨operation, arguments, path, rfl, hpath, hpublic⟩

/-- A row that is not of the mint refuses every record that is bound to it. -/
theorem refuses_of_not_bears (hnot : ¬BearsFingerprint fingerprint row) :
    Refuses key fingerprint row where
  authority s hserves := by
    cases hcarries : assertKeyCarriesAuthority s key fingerprint with
    | error e => exact ⟨e, rfl⟩
    | ok owner => exact absurd (bears_of_carriesAuthority hserves hcarries) hnot
  opening s hserves henable := by
    cases hcarries : assertKeyCarriesAuthority s key fingerprint with
    | error e => exact ⟨e, by rw [buildExecutionIdentity, henable, hcarries]; rfl⟩
    | ok owner => exact absurd (bears_of_carriesAuthority hserves hcarries) hnot
  toolCall s evaluable claims resolved hserves henable := by
    cases hcall : authorizeExecutionToolCall s evaluable (fireCaller key fingerprint claims)
      resolved with
    | error e => exact .inl ⟨e, rfl⟩
    | ok u => exact .inr ((bears_of_toolCall hserves henable hcall).resolve_left hnot)
  agentRun s evaluable claims agentName hserves henable := by
    cases hrun : authorizeExecutionAgentRun s evaluable (fireCaller key fingerprint claims)
      agentName with
    | error e => exact .inl ⟨e, rfl⟩
    | ok u =>
      cases u
      obtain ⟨route, -, hallowed⟩ := (authorizeExecutionAgentRun_eq_ok henable).mp hrun
      exact .inr ((bears_of_authorizePinnedRoute hserves hallowed).resolve_left hnot)

/-! ## A policy of the mint -/

/-- The store has a JSON object for the members. -/
theorem exists_jsonObject (members : Members JsonValue) : ∃ object : JsonObject, ∀ name,
    Json.member object name = (members.get? name).getD .null := by
  induction members using Finmap.induction_on with
  | H members =>
    refine members.insertRec (C := fun members => ∃ object : JsonObject, ∀ name,
      Json.member object name =
        (Members.get? (υ := JsonValue) members.toFinmap name).getD .null) ?_ ?_
    · exact ⟨[], fun name => rfl⟩
    · rintro key value members - ⟨object, hobject⟩
      refine ⟨(key, value.getD .null) :: object, fun name => ?_⟩
      unfold Members.get?
      rw [← Finmap.insert_toFinmap]
      by_cases hname : name = key
      · subst hname
        rw [Json.member_cons_self, Finmap.lookup_insert, Option.join_some]
      · rw [Json.member_cons_of_ne hname, hobject, Finmap.lookup_insert_of_ne _ hname]
        rfl

theorem exists_servedAs (row : Option (PolicyBody JsonValue)) : ∃ policy, ServedAs row policy := by
  cases row with
  | none => exact ⟨{}, rfl, rfl, rfl, fun name => rfl⟩
  | some body =>
    obtain ⟨object, hobject⟩ := exists_jsonObject body.policyData
    exact ⟨⟨body.scopes, body.condition, body.conditionId, [], object⟩, rfl, rfl, rfl, hobject⟩

/-- A row with scopes that is not disabled, of a key without an owner. -/
structure LiveRow (body : PolicyBody JsonValue) : Prop where
  scopes : body.scopes ≠ []
  enabled : body.policyData.get? "disabled" = none
  unowned : ownerOf body.policyData = none

/-- A live row acts for the records that are bound to its mint. -/
theorem not_refuses_of_bears {body : PolicyBody JsonValue} (hlive : LiveRow body)
    (hbears : keyOf body.policyData = some (.str fingerprint)) :
    ¬Refuses key fingerprint (some body) := by
  intro hrefuses
  obtain ⟨policy, hpolicy⟩ := exists_servedAs (some body)
  have hserves : Serves (deployment [] [] [] [(key, policy)]) key (some body) := by
    intro policy' hpolicy'
    simp [Snapshot.fetchPolicy, deployment] at hpolicy'
    exact hpolicy' ▸ hpolicy
  obtain ⟨e, he⟩ := hrefuses.authority _ hserves
  have hscopes : policy.scopes ≠ [] := hpolicy.scopes ▸ hlive.scopes
  have hempty : policy.isEmpty = false := by simp [AccessPolicy.isEmpty, hscopes]
  have hdisabled : policy.isDisabled = false := by
    have hmember := hpolicy.policyData "disabled"
    rw [Option.bind_some, hlive.enabled] at hmember
    unfold AccessPolicy.isDisabled
    rw [hmember]
    rfl
  have hmember : Json.member policy.policyData Authz.keyFingerprintClaim = .str fingerprint :=
    (hpolicy.policyData _).trans (congrArg (fun key : Option JsonValue => key.getD .null) hbears)
  have howner : stringMember policy.policyData ownerUserIdClaim = .ok none := by
    have hmember : Json.member policy.policyData ownerUserIdClaim = .null :=
      (hpolicy.policyData _).trans
        (congrArg (fun owner : Option JsonValue => owner.getD .null) hlive.unowned)
    unfold stringMember
    rw [hmember]
  have hfetch : (deployment [] [] [] [(key, policy)]).fetchPolicy key = .ok policy := by
    simp [Snapshot.fetchPolicy, deployment]
  have hcarries : assertKeyCarriesAuthority (deployment [] [] [] [(key, policy)]) key fingerprint =
      .ok none := by
    simp only [assertKeyCarriesAuthority, bind_eq_ok, mapError_eq_ok]
    refine ⟨0, rfl, policy, hfetch, (), ?_, (), ?_, (), ?_, none, howner, rfl⟩
    · simp [ensure, hempty]
    · simp [ensure, hdisabled]
    · rw [assertPolicyMatchesFingerprint, hmember]
      simp [ensure]
  rw [hcarries] at he
  cases he

end TaiSkeleton.Authz
