import TaiSkeleton.AccessControl.Admission
import TaiSkeleton.AccessControl.AnonymousAccess
import TaiSkeleton.AccessControl.Projection

/-!
# The projection against the edge

What the projection lists for a caller, the edge admits of that caller on the path that was
probed. A pattern stands for more paths than its probe, and the admin principal is probed by the
owner that its policy stores and not by the one that its claims name.
-/

namespace TaiSkeleton.AccessControl

open Lib App

variable {s : Snapshot} {registries : Registries} {token : AccessToken} {data : AuthData} {b : Build}
  {version : ℕ} {path : Path} {method : String}

/-- The edge admits the caller's request that is decided on this path. -/
def Reaches (s : Snapshot) (token : AccessToken) (method : String) (path : Path) : Prop :=
  ∀ conn : Connection, conn.method = some method → conn.target.urlPath s.netlocChecks = .ok path →
    getAccessToken s conn = .ok (some token) → (httpEdge s conn).admitted = true

/-! ## What a build has read -/

/-- The build read what the backend did. -/
structure Agrees (s : Snapshot) (token : AccessToken) (data : AuthData) (b : Build) : Prop where
  policy : b.policy = data.policy
  ownerPolicy : b.ownerPolicy = data.ownerPolicy
  keyPass : data.policy.isAdmin = false → ∀ pass, b.keyPass = some pass →
    s.evaluator.renderCondition data.policy = .ok pass.condition ∧
      pass.configured = data.policy.hasCondition ∧
      ∀ m p, { pass.base with method := m, path := p } = keyContext s token data m p
  ownerPass : data.policy.isAdmin = false → ∀ ownerPolicy, data.ownerPolicy = some ownerPolicy →
    ownerPolicy.hasCondition = true → ∃ pass, b.ownerPass = some pass ∧
      s.evaluator.renderCondition ownerPolicy = .ok pass.condition ∧
      pass.configured = ownerPolicy.hasCondition ∧
      ∀ m p, { pass.base with method := m, path := p } = ownerContext s token data ownerPolicy m p

theorem preparePass_eq_ok {policy : AccessPolicy} {scopes : List String}
    {claims context : JsonObject} {userId : String} {pass : PreparedPass} :
    preparePass s policy scopes claims context userId = .ok pass ↔
      ∃ condition, s.evaluator.renderCondition policy = .ok condition ∧
        pass = ⟨condition, policy.hasCondition,
          { sub := userId, scopes, identity := claims, policy := policy.policyData, context,
            method := none, path := [], time := s.time }⟩ := by
  unfold preparePass
  rw [bind_eq_ok]
  refine exists_congr fun condition => and_congr_right fun _ => ?_
  rw [pure_eq_ok, Except.ok.injEq, eq_comm]

/-- The owner that the claims name, as the backend and the build read it. -/
theorem claimedOwnerPolicy_of_fetched {owner : Option String}
    {ownerPolicy : Option AccessPolicy} (hfetched : fetchAuthData s token = .ok data)
    (hclaim : stringMember token.claims ownerUserIdClaim = .ok owner)
    (howner : claimedOwnerPolicy s owner = .ok ownerPolicy) : ownerPolicy = data.ownerPolicy := by
  cases owner with
  | none =>
    obtain ⟨_, _, _, _, _, rfl⟩ := (fetchAuthData_unowned hclaim).mp hfetched
    exact (Except.ok.inj howner).symm
  | some owner =>
    obtain ⟨_, _, _, _, _, _, hpolicy, _, rfl⟩ := (fetchAuthData_owned hclaim).mp hfetched
    simp only [claimedOwnerPolicy, hpolicy, ok_bind, pure_eq_ok] at howner
    exact (Except.ok.inj howner).symm

theorem policy_of_fetched (hfetched : fetchAuthData s token = .ok data) :
    s.getPolicy token.clientId = .ok data.policy ∧
      s.liveContext token.clientId = .ok data.context := by
  unfold fetchAuthData at hfetched
  simp only [bind_eq_ok] at hfetched
  obtain ⟨policy, hpolicy, context, hcontext, h⟩ := hfetched
  split_ifs at h
  obtain ⟨owner, _, h⟩ := bind_eq_ok.mp h
  cases owner with
  | none =>
    obtain rfl := Except.ok.inj h
    exact ⟨hpolicy, hcontext⟩
  | some owner =>
    obtain ⟨ownerPolicy, _, h⟩ := bind_eq_ok.mp h
    split_ifs at h
    obtain rfl := Except.ok.inj h
    exact ⟨hpolicy, hcontext⟩

theorem agrees_of_prepareBuild (hfetched : fetchAuthData s token = .ok data)
    (hb : prepareBuild s token.clientId data.scopes token.claims = .ok b) :
    Agrees s token data b := by
  obtain ⟨hpolicy, hcontext⟩ := policy_of_fetched hfetched
  simp only [prepareBuild, hpolicy, hcontext, ok_bind, bind_eq_ok] at hb
  obtain ⟨owner, hclaim, ownerPolicy, howner, hb⟩ := hb
  obtain rfl := claimedOwnerPolicy_of_fetched hfetched hclaim howner
  split_ifs at hb with hadmin
  · obtain rfl := Except.ok.inj hb
    refine ⟨rfl, rfl, fun h => ?_, fun h => ?_⟩
    · exact absurd (hadmin.symm.trans h) (by simp)
    · exact absurd (hadmin.symm.trans h) (by simp)
  · simp only [bind_eq_ok, pure_eq_ok] at hb
    obtain ⟨keyPass, hkey, ownerPass, hownerPass, hb⟩ := hb
    obtain rfl := Except.ok.inj hb
    obtain ⟨condition, hrender, rfl⟩ := preparePass_eq_ok.mp hkey
    refine ⟨rfl, rfl, ?_, ?_⟩
    · intro _ pass hpass
      obtain rfl := Option.some.inj hpass
      exact ⟨hrender, rfl, fun _ _ => rfl⟩
    · intro _ ownerPolicy hsome hcondition
      simp only [prepareOwnerPass, hsome, hcondition, if_true, bind_eq_ok, pure_eq_ok] at hownerPass
      obtain ⟨pass, hprepared, h⟩ := hownerPass
      obtain ⟨ownerCondition, hownerRender, rfl⟩ := preparePass_eq_ok.mp hprepared
      exact ⟨_, (Except.ok.inj h).symm, hownerRender, rfl, fun _ _ => rfl⟩

/-! ## Probes -/

theorem enforcePass_eq_true {policy : AccessPolicy} {pass : PreparedPass} {context : JqAuthContext}
    (hrender : s.evaluator.renderCondition policy = .ok pass.condition)
    (hconfigured : pass.configured = policy.hasCondition)
    (hcontext : { pass.base with method := some method, path } = context)
    (h : enforcePass s pass path method = .ok true) : s.evaluator.Holds policy context := by
  refine Evaluator.holds_iff.mpr ⟨pass.condition, hrender, ?_⟩
  unfold enforcePass at h
  rw [hcontext, hconfigured] at h
  cases henforce : s.evaluator.enforce context pass.condition policy.hasCondition with
  | ok u => rfl
  | error e => cases e <;> simp [henforce] at h

theorem conditionsHold_of_jqAdmits (hagrees : Agrees s token data b)
    (hnot : data.policy.isAdmin = false) {keyPass : PreparedPass} (hpass : b.keyPass = some keyPass)
    (h : jqAdmits s keyPass b.ownerPass path method = .ok true) :
    ConditionsHold s token data (some method) path := by
  obtain ⟨hrender, hconfigured, hcontext⟩ := hagrees.keyPass hnot keyPass hpass
  obtain ⟨admitted, hkey, h⟩ := bind_eq_ok.mp h
  cases admitted with
  | false => exact absurd (Except.ok.inj h) (by simp)
  | true =>
    refine ⟨enforcePass_eq_true hrender hconfigured (hcontext _ _) hkey, ?_⟩
    intro ownerPolicy howner
    cases hcondition : ownerPolicy.hasCondition with
    | false => exact .inl hcondition
    | true =>
      obtain ⟨pass, hownerPass, hrender, hconfigured, hcontext⟩ :=
        hagrees.ownerPass hnot ownerPolicy howner hcondition
      rw [hownerPass] at h
      exact enforcePass_eq_true hrender hconfigured (hcontext _ _) h

/-- Every registered path is well formed, so that the gate's index is built. -/
def IndexBuilds (recorded : List RouteMetadata) : Prop :=
  ∃ index, buildIndex (loadAllRoutes recorded) = .ok index

theorem levelAdmits_of_isAdmin {store : LevelStore} (hindex : IndexBuilds store.recorded)
    {policy : AccessPolicy} (hadmin : policy.isAdmin = true) (m : Option String) :
    ∃ cause, roleLevelDecision store policy none path m = .ok (true, cause) := by
  obtain ⟨index, hindex⟩ := hindex
  cases m with
  | none => exact ⟨none, rfl⟩
  | some m =>
    unfold roleLevelDecision
    have hresolve : ∃ found, resolveRouteMeta store.recorded path (some m) = .ok found := by
      unfold resolveRouteMeta
      simp only [hindex, ok_bind]
      cases canonicalizePath path with
      | error e => exact ⟨none, rfl⟩
      | ok p => exact ⟨_, rfl⟩
    obtain ⟨found, hfound⟩ := hresolve
    simp only [hfound]
    cases found with
    | none => exact ⟨none, rfl⟩
    | some route =>
      refine ⟨none, ?_⟩
      unfold roleLevelDecisionForRoute
      by_cases hfenced : route.action.isFenced = true
      · simp [hfenced, hadmin]
      · simp [hfenced, hadmin]

/-- The owner that the caller's policy stores is the one that its claims name. -/
def OwnersAgree (token : AccessToken) (policy : AccessPolicy) : Prop :=
  Json.member policy.policyData ownerUserIdClaim = Json.member token.claims ownerUserIdClaim

theorem ownerPolicy_eq_none_of_isAdmin (hfetched : fetchAuthData s token = .ok data)
    (howners : OwnersAgree token data.policy) (hadmin : data.policy.isAdmin = true) :
    data.ownerPolicy = none := by
  have hmember : Json.member token.claims ownerUserIdClaim = .null := by
    rw [← howners]
    simp only [AccessPolicy.isAdmin, Bool.and_eq_true, AccessPolicy.isUnowned] at hadmin
    have hunowned := hadmin.2
    cases hm : Json.member data.policy.policyData ownerUserIdClaim with
    | null => rfl
    | _ => simp [hm] at hunowned
  have hclaim : stringMember token.claims ownerUserIdClaim = .ok none := by
    rw [stringMember, hmember]
  obtain ⟨_, _, _, _, _, rfl⟩ := (fetchAuthData_unowned hclaim).mp hfetched
  rfl

/-- What an admitted probe says of the backend's decision. -/
theorem backend_of_admits (hindex : IndexBuilds s.verifier.recorded)
    (hfetched : fetchAuthData s token = .ok data) (howners : OwnersAgree token data.policy)
    (hagrees : Agrees s token data b) (h : b.admits s path method = .ok true) :
    ConditionsHold s token data (some method) path ∧
      LevelAdmits s data.policy data.ownerPolicy (some method) path := by
  have hversion : ∃ n, s.routes.policyVersion = .ok n := by
    obtain ⟨n, hn, _⟩ := bind_eq_ok.mp (policy_of_fetched hfetched).1
    exact ⟨n, hn⟩
  unfold Build.admits at h
  rw [hagrees.policy] at h
  split_ifs at h with hadmin
  · have hnone := ownerPolicy_eq_none_of_isAdmin hfetched howners hadmin
    refine ⟨⟨.inl (AccessPolicy.hasCondition_of_isAdmin hadmin), ?_⟩, hversion, ?_⟩
    · simp [hnone]
    · rw [hnone]
      exact levelAdmits_of_isAdmin hindex hadmin _
  · have hnot : data.policy.isAdmin = false := by simpa using hadmin
    cases hpass : b.keyPass with
    | none => simp [hpass] at h
    | some keyPass =>
      simp only [hpass, bind_eq_ok] at h
      obtain ⟨admitted, hjq, h⟩ := h
      cases admitted with
      | false => exact absurd (Except.ok.inj h) (by simp)
      | true =>
        refine ⟨conditionsHold_of_jqAdmits hagrees hnot hpass hjq, hversion, ?_⟩
        obtain ⟨⟨allowed, cause⟩, hlevel, h⟩ := bind_eq_ok.mp h
        obtain rfl : allowed = true := Except.ok.inj h
        rw [hagrees.ownerPolicy] at hlevel
        exact ⟨cause, hlevel⟩

theorem guardOpens_of_pathReachable (hversion : ∃ n, s.routes.policyVersion = .ok n)
    (h : pathReachable s data.scopes version path = .ok true) (isAdmin : Bool)
    (m : Option String) : GuardOpens s isAdmin data.scopes m path := by
  unfold pathReachable at h
  split_ifs at h with hcarve
  · exact .inl hcarve
  · obtain ⟨ids, hids, h⟩ := bind_eq_ok.mp h
    have hopen := Except.ok.inj h
    simp only [Bool.and_eq_true, bne_iff_ne, Bool.or_eq_true] at hopen
    obtain ⟨n, hn⟩ := hversion
    exact .inr ⟨ids, resolveResourceIds_method hn hids hopen.1, .inr ⟨hopen.1, hopen.2⟩⟩

/-- No path that is carved out for authenticated callers is always public. -/
def CarveOutsAuthenticated (settings : Settings) : Prop :=
  ∀ path ∈ settings.authenticatedAlwaysAllowedPaths, isAlwaysPublicPath settings path = false

theorem reaches_of_decided (hcarve : CarveOutsAuthenticated s.settings)
    (hfetched : fetchAuthData s token = .ok data)
    (hconditions : ConditionsHold s token data (some method) path)
    (hlevel : LevelAdmits s data.policy data.ownerPolicy (some method) path)
    (hguard : GuardOpens s data.policy.isAdmin data.scopes (some method) path) :
    Reaches s token method path := by
  intro conn hmethod hurl htoken
  rw [httpEdge_admitted hurl htoken, hmethod]
  split_ifs with hpublic
  · refine (guardOn_alwaysPublic hpublic).mpr ?_
    intro hmem
    rw [hcarve path hmem] at hpublic
    exact absurd hpublic (by simp)
  · exact ⟨data, hfetched, hconditions, hlevel, hguard⟩

/-! ## The surfaces -/

section

variable (hcarve : CarveOutsAuthenticated s.settings) (hindex : IndexBuilds s.verifier.recorded)
  (hfetched : fetchAuthData s token = .ok data) (howners : OwnersAgree token data.policy)
  (hagrees : Agrees s token data b)
include hcarve hindex hfetched howners hagrees

theorem reaches_of_admitted (hreachable : pathReachable s data.scopes version path = .ok true)
    (h : b.admits s path method = .ok true) : Reaches s token method path := by
  obtain ⟨hconditions, hlevel⟩ := backend_of_admits hindex hfetched howners hagrees h
  exact reaches_of_decided hcarve hfetched hconditions hlevel
    (guardOpens_of_pathReachable hlevel.1 hreachable _ _)

theorem reaches_of_probe (h : probe s b data.scopes version path path method = .ok true) :
    Reaches s token method path := by
  obtain ⟨reachable, hreachable, h⟩ := bind_eq_ok.mp h
  cases reachable with
  | false => exact absurd (Except.ok.inj h) (by simp)
  | true => exact reaches_of_admitted hcarve hindex hfetched howners hagrees hreachable h

theorem reaches_of_routeEntry {route : RouteMetadata} {entry : RouteEntry}
    (h : routeEntry s b data.scopes version route = .ok (some entry)) :
    ∀ m ∈ entry.methods, Reaches s token m entry.path := by
  unfold routeEntry at h
  split_ifs at h with hbrace
  · exact absurd (Except.ok.inj h) (by simp)
  obtain ⟨reachable, hreachable, h⟩ := bind_eq_ok.mp h
  cases reachable with
  | false => exact absurd (Except.ok.inj h) (by simp)
  | true =>
    obtain ⟨allowed, hallowed, h⟩ := bind_eq_ok.mp h
    split_ifs at h with hnone
    · exact absurd (Except.ok.inj h) (by simp)
    obtain rfl := Option.some.inj (Except.ok.inj h)
    intro m hm
    obtain ⟨m', _, hm'⟩ := exists_of_mem_collect hallowed (List.mem_mergeSort.mp hm)
    obtain ⟨admitted, hadmits, hm'⟩ := bind_eq_ok.mp hm'
    cases admitted with
    | false => exact absurd (Except.ok.inj hm') (by simp)
    | true =>
      obtain rfl := Option.some.inj (Except.ok.inj hm')
      exact reaches_of_admitted hcarve hindex hfetched howners hagrees hreachable hadmits

theorem reaches_of_patternEntry {table : RouteTable} {templateUrl : Path} {regex : String}
    {entry : PatternEntry}
    (h : patternEntry s registries b data.scopes version table templateUrl regex =
      .ok (some entry)) :
    ∃ sample, samplePathForPattern registries.parse s.verifier.regexes entry.pattern =
      some sample ∧ Reaches s token "GET" sample := by
  unfold patternEntry at h
  cases hscope : fetchRoute table templateUrl with
  | none => simp [hscope] at h
  | some scopeId =>
    simp only [hscope] at h
    cases hsample : samplePathForPattern registries.parse s.verifier.regexes regex with
    | none => simp [hsample] at h
    | some sample =>
      simp only [hsample] at h
      obtain ⟨admitted, hprobe, h⟩ := bind_eq_ok.mp h
      cases admitted with
      | false => exact absurd (Except.ok.inj h) (by simp)
      | true =>
        obtain rfl := Option.some.inj (Except.ok.inj h)
        exact ⟨sample, hsample, reaches_of_probe hcarve hindex hfetched howners hagrees hprobe⟩

/-- A mount that is not carved out is reached at its root with a slash. -/
theorem reaches_of_subMcpEntry {slug : String} {config : RouteConfig} {entry : SubMcpEntry}
    (hroot : mountRoot slug ∉ s.settings.authenticatedAlwaysAllowedPaths)
    (h : subMcpEntry s b data.scopes version slug config = .ok (some entry)) :
    Reaches s token "GET" (mountRoot slug ++ ['/']) := by
  obtain ⟨admitted, hprobe, h⟩ := bind_eq_ok.mp h
  cases admitted with
  | false => exact absurd (Except.ok.inj h) (by simp)
  | true =>
    obtain ⟨reachable, hreachable, hadmits⟩ := bind_eq_ok.mp hprobe
    cases reachable with
    | false => exact absurd (Except.ok.inj hadmits) (by simp)
    | true =>
      obtain ⟨hconditions, hlevel⟩ := backend_of_admits hindex hfetched howners hagrees hadmits
      refine reaches_of_decided hcarve hfetched hconditions hlevel ?_
      rcases guardOpens_of_pathReachable hlevel.1 hreachable data.policy.isAdmin (some "GET") with
        hcarved | ⟨ids, hids, hopen⟩
      · exact absurd hcarved hroot
      · -- A path that resolves to no id at all is not reachable.
        have hne : ids ≠ [] := by
          unfold pathReachable at hreachable
          rw [if_neg hroot] at hreachable
          obtain ⟨ids', hids', h'⟩ := bind_eq_ok.mp hreachable
          have hne' : ids' ≠ [] := by
            have hopen' := Except.ok.inj h'
            simp only [Bool.and_eq_true, bne_iff_ne] at hopen'
            exact hopen'.1
          obtain ⟨n, hn⟩ := hlevel.1
          have hsame := (resolveResourceIds_method hn hids' hne').symm.trans hids
          exact Except.ok.inj hsame ▸ hne'
        have hwf := (Verifier.resolveResourceIds_eq_ok hids hne).1
        refine .inr ⟨ids, ?_, hopen⟩
        rw [← hids]
        simp only [Verifier.resolveResourceIds, canonicalizePath_of_wellFormed hwf,
          canonicalizePath_of_wellFormed hwf.append_slash, canonical_append_slash]

end

/-- Every surface that is projected for a caller that the backend knows, the edge admits of that
caller on the path that was probed. -/
theorem projection_reaches {result : ProjectionResult} (hcarve : CarveOutsAuthenticated s.settings)
    (hindex : IndexBuilds s.verifier.recorded) (hfetched : fetchAuthData s token = .ok data)
    (howners : OwnersAgree token data.policy)
    (hbuild : buildUncached s registries token.clientId version data.scopes token.claims =
      .ok result) :
    (∀ entry ∈ result.routes, ∀ m ∈ entry.methods, Reaches s token m entry.path) ∧
    (∀ entry ∈ result.routePatterns, ∃ sample,
      samplePathForPattern registries.parse s.verifier.regexes entry.pattern = some sample ∧
        s.verifier.regexes.fullmatch entry.pattern sample = true ∧ Reaches s token "GET" sample) ∧
    (∀ entry ∈ result.subMcp, mountRoot entry.slug ∉ s.settings.authenticatedAlwaysAllowedPaths →
      Reaches s token "GET" (mountRoot entry.slug ++ ['/'])) ∧
    ∀ name ∈ result.agents, Reaches s token "POST" (runPath name) := by
  unfold buildUncached at hbuild
  simp only [bind_eq_ok] at hbuild
  obtain ⟨b, hb, routes, hroutes, table, _, patterns, hpatterns, subRoutes, _, subMcp, hsubMcp,
    tools, _, agents, hagents, h⟩ := hbuild
  obtain rfl := Except.ok.inj h
  have hagrees := agrees_of_prepareBuild hfetched hb
  refine ⟨?_, ?_, ?_, ?_⟩
  · intro entry hentry
    obtain ⟨route, _, hroute⟩ := exists_of_mem_collect hroutes (List.mem_mergeSort.mp hentry)
    exact reaches_of_routeEntry hcarve hindex hfetched howners hagrees hroute
  · intro entry hentry
    obtain ⟨⟨url, regex⟩, _, hpattern⟩ := exists_of_mem_collect hpatterns hentry
    obtain ⟨sample, hsample, hreaches⟩ :=
      reaches_of_patternEntry hcarve hindex hfetched howners hagrees hpattern
    exact ⟨sample, hsample, fullmatch_of_samplePathForPattern hsample, hreaches⟩
  · intro entry hentry
    obtain ⟨⟨slug, config⟩, _, hmount⟩ := exists_of_mem_collect hsubMcp hentry
    have hslug : entry.slug = slug := by
      obtain ⟨admitted, _, h⟩ := bind_eq_ok.mp hmount
      cases admitted with
      | false => exact absurd (Except.ok.inj h) (by simp)
      | true => exact (congrArg SubMcpEntry.slug (Option.some.inj (Except.ok.inj h))).symm
    intro hroot
    rw [hslug] at hroot ⊢
    exact reaches_of_subMcpEntry hcarve hindex hfetched howners hagrees hroot hmount
  · intro name hname
    obtain ⟨name', _, hagent⟩ := exists_of_mem_collect hagents hname
    obtain ⟨admitted, hprobe, h⟩ := bind_eq_ok.mp hagent
    cases admitted with
    | false => exact absurd (Except.ok.inj h) (by simp)
    | true =>
      obtain rfl := Option.some.inj (Except.ok.inj h)
      exact reaches_of_probe hcarve hindex hfetched howners hagrees hprobe

/-- One scope on a pattern of file names, another on one of the names; a reader of the first. -/
def filesState : Snapshot :=
  let s := deployment [] [⟨"/files/{name}".toList, "files", some "/files/."⟩,
      ⟨"/files/y".toList, "secret", none⟩]
    [("sk-key".toList, ⟨"key", []⟩)] [("key", { scopes := ["files"] })]
  let fullmatch (pattern : String) (path : Path) : Bool :=
    if pattern = "/files/." then "/files/".toList.isPrefixOf path && path.length == 8
    else pattern.toList == path
  { s with verifier := { s.verifier with regexes := { literalRegexes with fullmatch } } }

/-- The parser of that pattern. -/
def filesRegistries : Registries where
  parse pattern :=
    if pattern = "/files/." then some ("/files/".toList.map RegexNode.literal ++ [.any]) else none
  subMcpRoutes := .ok []
  allRegistryTools := .ok []
  allAgentNames := []
  mintable := false

/-- What `filesState` answers for the reader's projection. -/
def filesResult : ProjectionResult :=
  ⟨"key", none, false, ["files"], [], [⟨"/files/.", "files"⟩], [], [], [], false⟩

theorem filesState_projected :
    buildUncached filesState filesRegistries "key" 0 ["files"] [] = .ok filesResult := by
  decide +kernel

theorem filesState_reaches_sample :
    ∃ sample, samplePathForPattern filesRegistries.parse filesState.verifier.regexes "/files/." =
        some sample ∧
      filesState.verifier.regexes.fullmatch "/files/." sample = true ∧
      Reaches filesState ⟨"key", [], []⟩ "GET" sample := by
  have hfetched : fetchAuthData filesState ⟨"key", [], []⟩ =
      .ok ⟨{ scopes := ["files"] }, [], none, ["files"]⟩ := rfl
  have hcarve : CarveOutsAuthenticated filesState.settings := by
    intro path hpath
    obtain rfl := List.mem_singleton.mp hpath
    decide +kernel
  have hindex : IndexBuilds filesState.verifier.recorded :=
    ⟨⟨[], []⟩, by simp [filesState, deployment, loadAllRoutes, buildIndex]⟩
  have hentry : (⟨"/files/.", "files"⟩ : PatternEntry) ∈ filesResult.routePatterns := by
    exact List.mem_singleton.mpr rfl
  have hall := (projection_reaches hcarve hindex hfetched rfl filesState_projected).2.1
  exact hall ⟨"/files/.", "files"⟩ hentry

/-- The reader is refused a `GET` that the projected pattern matches. -/
theorem filesState_pattern_refused :
    fetchAuthData filesState ⟨"key", [], []⟩ =
      .ok ⟨{ scopes := ["files"] }, [], none, ["files"]⟩ ∧
    buildUncached filesState filesRegistries "key" 0 ["files"] [] =
      .ok ⟨"key", none, false, ["files"], [], [⟨"/files/.", "files"⟩], [], [], [], false⟩ ∧
    filesState.verifier.regexes.fullmatch "/files/." "/files/y".toList = true ∧
    (httpEdge filesState (keyRequest "GET" "/files/y".toList "sk-key".toList)).admitted = false :=
  ⟨rfl, by decide +kernel, by decide +kernel, by decide +kernel⟩

end TaiSkeleton.AccessControl
