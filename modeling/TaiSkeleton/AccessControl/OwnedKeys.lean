import TaiSkeleton.AccessControl.Admission

/-!
# Owned keys

A key that a principal owns is capped by its owner at request time. Each term of the decision on
the key's request implies the term on the owner's own.
-/

namespace TaiSkeleton.AccessControl

open Lib App

/-! ## The terms one by one -/

theorem coversAll_of_effectiveScopes {publicId : String} {ids keyScopes ownerScopes : List String}
    (h : coversAll publicId ids (effectiveScopes keyScopes ownerScopes) = true) :
    coversAll publicId ids ownerScopes = true := by
  unfold effectiveScopes at h
  unfold coversAll at h ⊢
  split_ifs at h with howner hkey
  · simp [howner]
  · exact h
  · have hnone : (keyScopes.filter (· ∈ ownerScopes)).contains "*" = false := by
      simp [List.mem_filter, hkey]
    rw [hnone, Bool.false_or, List.all_eq_true] at h
    rw [Bool.or_eq_true, List.all_eq_true]
    refine .inr ?_
    intro id hid
    have hmem := h id hid
    simp only [List.contains_iff_mem, List.mem_filter, decide_eq_true_eq] at hmem
    simpa using hmem.2

variable {s : Snapshot} {policy ownerPolicy : AccessPolicy} {method : Option String} {path : Path}

/-- The owner's role governs the key, and a key is never let through the fence. -/
theorem LevelAdmits.of_owned (hnot : policy.isAdmin = false)
    (h : LevelAdmits s policy (some ownerPolicy) method path) :
    LevelAdmits s ownerPolicy none method path := by
  obtain ⟨hversion, cause, h⟩ := h
  refine ⟨hversion, ?_⟩
  unfold roleLevelDecision at h ⊢
  cases method with
  | none => exact ⟨none, rfl⟩
  | some m =>
    cases hroute : resolveRouteMeta s.levelStore.recorded path (some m) with
    | error e => simp [hroute] at h
    | ok found =>
      cases found with
      | none => exact ⟨none, by simp only [hroute]⟩
      | some route =>
        simp only [hroute] at h ⊢
        unfold roleLevelDecisionForRoute at h ⊢
        cases hfenced : route.action.isFenced with
        | true => simp [hfenced, hnot] at h
        | false =>
          simp only [hfenced, Bool.false_eq_true, if_false] at h ⊢
          exact ⟨cause, h⟩

theorem GuardOpens.of_owned {keyScopes : List String}
    (h : GuardOpens s false (effectiveScopes keyScopes ownerPolicy.scopes) method path) :
    GuardOpens s ownerPolicy.isAdmin ownerPolicy.scopes method path := by
  rcases h with hcarve | ⟨ids, hids, ⟨_, hadmin⟩ | ⟨hne, hopen⟩⟩
  · exact .inl hcarve
  · exact absurd hadmin (by simp)
  · refine .inr ⟨ids, hids, .inr ⟨hne, ?_⟩⟩
    exact hopen.imp_right coversAll_of_effectiveScopes

/-- jq answers a policy's condition the same for contexts that differ in `.sub`, `.identity` and
`.context` only. -/
def SubjectFree (s : Snapshot) (policy : AccessPolicy) : Prop :=
  ∀ expression, s.evaluator.renderCondition policy = .ok expression →
    ∀ c c' : JqAuthContext, c.scopes = c'.scopes → c.policy = c'.policy →
      c.method = c'.method → c.path = c'.path → c.time = c'.time →
      s.evaluator.runJqFirst expression c.modelDump = s.evaluator.runJqFirst expression c'.modelDump

theorem Evaluator.Holds.of_subjectFree {c c' : JqAuthContext} (h : s.evaluator.Holds policy c)
    (hfree : SubjectFree s policy) (hscopes : c.scopes = c'.scopes)
    (hpolicy : c.policy = c'.policy) (hmethod : c.method = c'.method) (hpath : c.path = c'.path)
    (htime : c.time = c'.time) : s.evaluator.Holds policy c' := by
  rcases h with hnone | ⟨expression, hrender, hne, result, hjq, htrue⟩
  · exact .inl hnone
  · refine .inr ⟨expression, hrender, hne, result, ?_, htrue⟩
    rw [← hfree expression hrender c c' hscopes hpolicy hmethod hpath htime]
    exact hjq

/-! ## The whole decision -/

/-- The key's claims and its stored policy name the owner, whose own claims name none. -/
structure IsOwnedBy (s : Snapshot) (key owner : AccessToken) : Prop where
  claimed : stringMember key.claims ownerUserIdClaim = .ok (some owner.clientId)
  stored : ∀ policy, s.getPolicy key.clientId = .ok policy →
    stringMember policy.policyData ownerUserIdClaim = .ok (some owner.clientId)
  unowned : stringMember owner.claims ownerUserIdClaim = .ok none

theorem isAdmin_of_owned {owner : String}
    (h : stringMember policy.policyData ownerUserIdClaim = .ok (some owner)) :
    policy.isAdmin = false := by
  have hunowned : policy.isUnowned = false := by
    unfold stringMember at h
    unfold AccessPolicy.isUnowned
    cases hm : Json.member policy.policyData ownerUserIdClaim with
    | null => simp [hm] at h
    | _ => rfl
  simp [AccessPolicy.isAdmin, hunowned]

theorem Admits.of_owned {key owner : AccessToken} {data : AuthData} (howned : IsOwnedBy s key owner)
    (hcontext : ∃ context, s.liveContext owner.clientId = .ok context)
    (hfree : ∀ ownerPolicy, s.getPolicy owner.clientId = .ok ownerPolicy →
      SubjectFree s ownerPolicy)
    (h : Admits s key method path data) : ∃ data', Admits s owner method path data' := by
  obtain ⟨hfetched, hconditions, hlevel, hguard⟩ := h
  obtain ⟨policy, context, ownerPolicy, hpolicy, _, _, hownerPolicy, hlive, rfl⟩ :=
    (fetchAuthData_owned howned.claimed).mp hfetched
  obtain ⟨ownerContext', hownerContext⟩ := hcontext
  have hnot : policy.isAdmin = false := isAdmin_of_owned (howned.stored policy hpolicy)
  refine ⟨⟨ownerPolicy, ownerContext', none, ownerPolicy.scopes⟩, ?_, ?_, ?_, ?_⟩
  · exact (fetchAuthData_unowned howned.unowned).mpr
      ⟨ownerPolicy, ownerContext', hownerPolicy, hownerContext, hlive, rfl⟩
  · refine ⟨?_, by simp⟩
    exact (hconditions.owner ownerPolicy rfl).of_subjectFree (hfree ownerPolicy hownerPolicy)
      rfl rfl rfl rfl rfl
  · exact hlevel.of_owned hnot
  · have hguard' : GuardOpens s false (effectiveScopes policy.scopes ownerPolicy.scopes)
        method path := hnot ▸ hguard
    exact hguard'.of_owned

/-- What the edge admits of an owned key, it admits of the owner that asks the same, where the
owner's condition does not look at the subject and the owner's live context can be read. -/
theorem httpEdge_owner_of_owned {keyConn ownerConn : Connection} {key owner : AccessToken}
    (htarget : ownerConn.target = keyConn.target) (hmethod : ownerConn.method = keyConn.method)
    (hkey : getAccessToken s keyConn = .ok (some key))
    (howner : getAccessToken s ownerConn = .ok (some owner)) (howned : IsOwnedBy s key owner)
    (hcontext : ∃ context, s.liveContext owner.clientId = .ok context)
    (hfree : ∀ ownerPolicy, s.getPolicy owner.clientId = .ok ownerPolicy →
      SubjectFree s ownerPolicy)
    (h : (httpEdge s keyConn).admitted = true) : (httpEdge s ownerConn).admitted = true := by
  cases hpath : keyConn.target.urlPath s.netlocChecks with
  | error e =>
    rw [httpEdge_eq, fedPaths, hpath] at h
    exact absurd h (by simp [Outcome.admitted])
  | ok path =>
    rw [httpEdge_admitted hpath hkey] at h
    rw [httpEdge_admitted (htarget ▸ hpath) howner, hmethod]
    split_ifs at h ⊢ with hpublic
    · exact h
    · obtain ⟨data, hdata⟩ := h
      exact hdata.of_owned howned hcontext hfree

/-- A key of `olga`'s, as capable as she is, and her own. -/
def delegated : Snapshot :=
  deployment [] [⟨"/reports".toList, "reports", none⟩]
    [("sk-key".toList, ⟨"key", [("owner_user_id", .str "olga")]⟩), ("sk-olga".toList, ⟨"olga", []⟩)]
    [("key", { scopes := ["reports"], policyData := [("owner_user_id", .str "olga")] }),
      ("olga", { scopes := ["reports"] })]

/-- The same, with a live context of `olga`'s that does not decode. -/
def undecodable : Snapshot :=
  { delegated with
    liveContext := fun userId =>
      if userId = "olga" then .error (.raised "Expecting value") else .ok [] }

theorem delegated_isOwnedBy (liveContext : String → Except Fault JsonObject) :
    IsOwnedBy { delegated with liveContext } ⟨"key", [], [("owner_user_id", .str "olga")]⟩
      ⟨"olga", [], []⟩ := by
  refine ⟨rfl, ?_, rfl⟩
  intro policy hpolicy
  obtain rfl := Except.ok.inj hpolicy
  rfl

theorem delegated_subjectFree (liveContext : String → Except Fault JsonObject)
    (policy : AccessPolicy) : SubjectFree { delegated with liveContext } policy := by
  rintro expression _ c c' _ _ _ _ _
  rfl

theorem delegated_owner :
    (httpEdge delegated (keyRequest "GET" "/reports".toList "sk-olga".toList)).admitted = true := by
  have htarget : (keyRequest "GET" "/reports".toList "sk-olga".toList).target =
      (keyRequest "GET" "/reports".toList "sk-key".toList).target := rfl
  have hkey : (httpEdge delegated (keyRequest "GET" "/reports".toList "sk-key".toList)).admitted =
      true := by decide +kernel
  exact httpEdge_owner_of_owned htarget rfl rfl rfl
    (delegated_isOwnedBy fun _ => .ok []) ⟨[], rfl⟩
    (fun ownerPolicy _ => delegated_subjectFree (fun _ => .ok []) ownerPolicy) hkey

/-- A live context of the owner's that does not decode denies the owner, and not the key. -/
theorem undecodable_owner_refused :
    IsOwnedBy undecodable ⟨"key", [], [("owner_user_id", .str "olga")]⟩ ⟨"olga", [], []⟩ ∧
    (∀ ownerPolicy, SubjectFree undecodable ownerPolicy) ∧
    (httpEdge undecodable (keyRequest "GET" "/reports".toList "sk-key".toList)).admitted = true ∧
    (httpEdge undecodable (keyRequest "GET" "/reports".toList "sk-olga".toList)).admitted =
      false :=
  ⟨delegated_isOwnedBy _, delegated_subjectFree _, by decide +kernel, by decide +kernel⟩

end TaiSkeleton.AccessControl
