import TaiSkeleton.AccessControl.ScopeTransactions

/-!
# Scopes with a route behind them

A scope that a policy lists is backed by a route that stays however the transactions in flight end,
or by a transaction that deletes the route and takes the scope from the policy, too. What a
transaction has written and locked goes with the statement it comes to, and no other transaction
disturbs it.
-/

namespace TaiSkeleton.AccessControl

open Lib

variable {τ υ : Type}

namespace ScopeState

variable (s : ScopeState τ υ)

/-- A policy lists the scope. -/
def Lists (user scope : String) : Prop :=
  ∃ body, s.policies.committed user = some body ∧ scope ∈ body.scopes

/-- Every concrete scope of a policy has a route that is not public. -/
def Backed (settings : Settings) : Prop :=
  ∀ user scope, s.Lists user scope → scope ≠ "*" → scope ≠ settings.publicResourceId ∧
    ∃ url row, s.routes.committed url = some row ∧ row.scopeId = scope

/-! ## Transactions in flight -/

/-- The route maps to the scope, however the transactions end. -/
def Kept (url : Path) (scope : String) : Prop :=
  (s.routes.committed url).map RouteBinding.scopeId = some scope ∧
    ∀ t row, s.routes.pending t url = some row → row.map RouteBinding.scopeId = some scope

/-- A transaction has rewritten the policy without the scope. -/
def Rewrote (t : τ) (user scope : String) : Prop :=
  ∃ body, s.policies.pending t user = some (some body) ∧ scope ∉ body.scopes

/-- A transaction is going to take the scope from the policy, or has done so. -/
def Strips (t : τ) (user scope : String) : ScopeCall υ → Prop
  | .checking _ scope' => scope' = scope
  | .removingRows scope' _ => scope' = scope
  | .stripping scope' => scope' = scope
  | .strippingRows scope' users => scope' = scope ∧ (user ∈ users ∨ s.Rewrote t user scope)
  | .done => s.Rewrote t user scope
  | _ => False

/-- A transaction deletes a route of the scope, and takes the scope from the policy. -/
def Covers (t : τ) (user scope : String) : Prop :=
  (∃ url, (s.routes.committed url).map RouteBinding.scopeId = some scope ∧
    s.routes.pending t url = some none) ∧ s.Strips t user scope (s.calls t)

def BackedAt (user scope : String) : Prop :=
  (∃ url, s.Kept url scope) ∨ ∃ t, s.Covers t user scope

/-- A transaction may take routes from the scope without more: each policy with the scope is left
another route, or another transaction takes the scope from it. -/
def Spared (t : τ) (taken : Set Path) (scope : String) : Prop :=
  ∀ user, s.Lists user scope → scope ≠ "*" →
    (∃ url, url ∉ taken ∧ s.Kept url scope) ∨ ∃ t', t' ≠ t ∧ s.Covers t' user scope

/-- The statement leaves the scopes backed: an upsert that takes a route from another scope, a
delete of a route that maps to another scope than was read, and a check that finds a route. -/
def KeepsCall (t : τ) : ScopeCall υ → Prop
  | .upserting url row => ∀ scope ∈ (s.routes.committed url).map RouteBinding.scopeId,
    scope ≠ row.scopeId → s.Spared t {url} scope
  | .removing url scope => ∀ scope' ∈ (s.routes.committed url).map RouteBinding.scopeId,
    scope' ≠ scope → s.Spared t {url} scope'
  | .checking _ scope => (∃ url, s.scopeOf t url = some scope) → s.Spared t ∅ scope
  | _ => True

def KeepsBacking : ScopeAct τ υ → Prop
  | .step t => s.KeepsCall t (s.calls t)
  | _ => True

end ScopeState

/-! ## The invariant -/

namespace ScopeCall

/-- The statements before which a route may have been locked `FOR SHARE`. -/
def sharesRoutes : ScopeCall υ → Bool
  | .lockingRows _ _ _ | .writing _ | .updating _ _ | .done => true
  | _ => false

/-- The statements before which a route may have been written. -/
def writesRoutes : ScopeCall υ → Bool
  | .unpinned _ | .checking _ _ | .removingRows _ _ | .stripping _ | .strippingRows _ _
  | .done => true
  | _ => false

/-- The statements before which a policy may have been written. -/
def writesPolicies : ScopeCall υ → Bool
  | .strippingRows _ _ | .updating _ _ | .done => true
  | _ => false

end ScopeCall

namespace ScopeState

variable (settings : Settings) (s : ScopeState τ υ)

/-- A transaction has a route of the scope locked `FOR SHARE`. -/
def Holds (t : τ) (scope : String) : Prop :=
  scope ≠ settings.publicResourceId ∧ ∃ url, s.shared t url ∧
    (s.routes.committed url).map RouteBinding.scopeId = some scope

/-- What is known at a statement of the rows that the transaction has come by. -/
def CallOk (t : τ) : ScopeCall υ → Prop
  | .unpinned url => s.routes.pending t url ≠ none ∧
    (s.routes.committed url).map RouteBinding.scopeId = some settings.publicResourceId
  | .strippingRows _ users => ∀ user ∈ users, s.policies.pending t user = none
  | .lockingRows _ _ live => ∀ scope ∈ live, s.Holds settings t scope
  | .writing grant => ∀ scope ∈ grant.concrete, s.Holds settings t scope
  | .updating user body => s.policies.pending t user ≠ none ∧
    ∀ scope ∈ body.scopes, scope ≠ "*" → s.Holds settings t scope ∨ s.Lists user scope
  | _ => True

/-- What a transaction has written and locked goes with its statement. -/
structure OwnOk (t : τ) : Prop where
  sharing : ∀ url, s.shared t url → (s.calls t).sharesRoutes = true
  routing : ∀ url, s.routes.pending t url ≠ none → (s.calls t).writesRoutes = true
  writing : ∀ user, s.policies.pending t user ≠ none → (s.calls t).writesPolicies = true
  call : s.CallOk settings t (s.calls t)
  granted : ∀ user body, s.policies.pending t user = some (some body) →
    ∀ scope ∈ body.scopes, scope ≠ "*" → s.Holds settings t scope ∨ s.Lists user scope

structure ScopeInv : Prop where
  routes : s.routes.Exclusive
  policies : s.policies.Exclusive
  shared : ∀ t t' url, s.shared t url → s.routes.pending t' url = none
  own : ∀ t, s.OwnOk settings t
  backed : ∀ user scope, s.Lists user scope → scope ≠ "*" →
    scope ≠ settings.publicResourceId ∧ s.BackedAt user scope

end ScopeState

/-! ## What the other transactions leave -/

variable {settings : Settings} {s s' : ScopeState τ υ} {t : τ} {url url' : Path}
  {user scope : String} {row : Option RouteBinding} {before call : ScopeCall υ}
  {body : PolicyBody υ}

/-- What a transaction holds is the same, and so are the rows that it has locked. -/
structure Undisturbed (s s' : ScopeState τ υ) (t : τ) : Prop where
  calls : s'.calls t = s.calls t
  shared : ∀ url, s'.shared t url ↔ s.shared t url
  routes : ∀ url, s'.routes.pending t url = s.routes.pending t url
  policies : ∀ user, s'.policies.pending t user = s.policies.pending t user
  route : ∀ url, s.shared t url ∨ s.routes.pending t url ≠ none →
    s'.routes.committed url = s.routes.committed url
  policy : ∀ user, s.policies.pending t user ≠ none →
    s'.policies.committed user = s.policies.committed user

namespace Undisturbed

theorem rewrote (h : Undisturbed s s' t) (hrewrote : s.Rewrote t user scope) :
    s'.Rewrote t user scope := by
  obtain ⟨body, hpending, hnot⟩ := hrewrote
  exact ⟨body, (h.policies user).trans hpending, hnot⟩

theorem strips (h : Undisturbed s s' t) (hstrips : s.Strips t user scope call) :
    s'.Strips t user scope call := by
  cases call with
  | strippingRows scope' users => exact hstrips.imp_right fun hor => hor.imp_right h.rewrote
  | done => exact h.rewrote hstrips
  | _ => exact hstrips

theorem covers (h : Undisturbed s s' t) (hcovers : s.Covers t user scope) :
    s'.Covers t user scope := by
  obtain ⟨⟨url, hscope, hdeleted⟩, hstrips⟩ := hcovers
  have hheld : s.routes.pending t url ≠ none := by
    rw [hdeleted]
    exact Option.some_ne_none _
  refine ⟨⟨url, ?_, (h.routes url).trans hdeleted⟩, ?_⟩
  · rw [h.route url (.inr hheld)]
    exact hscope
  · rw [h.calls]
    exact h.strips hstrips

theorem holds (h : Undisturbed s s' t) (hholds : s.Holds settings t scope) :
    s'.Holds settings t scope := by
  obtain ⟨hpublic, url, hshared, hscope⟩ := hholds
  refine ⟨hpublic, url, (h.shared url).mpr hshared, ?_⟩
  rw [h.route url (.inl hshared)]
  exact hscope

theorem lists (h : Undisturbed s s' t) (hheld : s.policies.pending t user ≠ none)
    (hlists : s.Lists user scope) : s'.Lists user scope := by
  obtain ⟨body, hbody, hmem⟩ := hlists
  exact ⟨body, (h.policy user hheld).trans hbody, hmem⟩

theorem callOk (h : Undisturbed s s' t) (hcall : s.CallOk settings t call) :
    s'.CallOk settings t call := by
  cases call with
  | unpinned url =>
    refine ⟨?_, ?_⟩
    · rw [h.routes]
      exact hcall.1
    · rw [h.route url (.inr hcall.1)]
      exact hcall.2
  | strippingRows scope' users => exact fun user huser => (h.policies user).trans (hcall user huser)
  | lockingRows grant urls live => exact fun scope hscope => h.holds (hcall scope hscope)
  | writing grant => exact fun scope hscope => h.holds (hcall scope hscope)
  | updating user body =>
    refine ⟨?_, fun scope hscope hne => (hcall.2 scope hscope hne).imp h.holds (h.lists hcall.1)⟩
    rw [h.policies]
    exact hcall.1
  | _ => trivial

theorem ownOk (h : Undisturbed s s' t) (hown : s.OwnOk settings t) : s'.OwnOk settings t where
  sharing url hshared := by
    rw [h.calls]
    exact hown.sharing url ((h.shared url).mp hshared)
  routing url hheld := by
    rw [h.routes] at hheld
    rw [h.calls]
    exact hown.routing url hheld
  writing user hheld := by
    rw [h.policies] at hheld
    rw [h.calls]
    exact hown.writing user hheld
  call := by
    rw [h.calls]
    exact h.callOk hown.call
  granted user body hpending scope hscope hne := by
    rw [h.policies] at hpending
    have hheld : s.policies.pending t user ≠ none := by
      rw [hpending]
      exact Option.some_ne_none _
    exact (hown.granted user body hpending scope hscope hne).imp h.holds (h.lists hheld)

end Undisturbed

/-- A step of one transaction leaves a scope backed by what the others do. -/
theorem ScopeState.BackedAt.of_others (h : s.BackedAt user scope)
    (hothers : ∀ t', t' ≠ t → Undisturbed s s' t')
    (hkept : ∀ url, s.Kept url scope → s'.BackedAt user scope)
    (hcovers : s.Covers t user scope → s'.BackedAt user scope) : s'.BackedAt user scope := by
  rcases h with ⟨url, h⟩ | ⟨t', h⟩
  · exact hkept url h
  · by_cases ht : t' = t
    · exact hcovers (ht ▸ h)
    · exact .inr ⟨t', (hothers t' ht).covers h⟩

theorem ScopeState.Spared.backedAt {taken : Set Path} (h : s.Spared t taken scope)
    (hlists : s.Lists user scope) (hne : scope ≠ "*")
    (hothers : ∀ t', t' ≠ t → Undisturbed s s' t')
    (hkept : ∀ url, url ∉ taken → s.Kept url scope → s'.Kept url scope) :
    s'.BackedAt user scope := by
  rcases h user hlists hne with ⟨url, hurl, h⟩ | ⟨t', ht, h⟩
  · exact .inl ⟨url, hkept url hurl h⟩
  · exact .inr ⟨t', (hothers t' ht).covers h⟩

/-- A route that is locked `FOR SHARE` stays. -/
theorem ScopeState.ScopeInv.kept_of_holds (h : s.ScopeInv settings)
    (hholds : s.Holds settings t scope) :
    ∃ url, s.Kept url scope := by
  obtain ⟨-, url, hshared, hscope⟩ := hholds
  refine ⟨url, hscope, fun t' row' hpending => ?_⟩
  rw [h.shared t t' url hshared] at hpending
  cases hpending

/-! ## One statement -/

section

variable [DecidableEq τ]

theorem undisturbed_set {t' : τ} (hne : t' ≠ t) : Undisturbed s (s.set t call) t' where
  calls := Function.update_of_ne hne _ _
  shared _ := Iff.rfl
  routes _ := rfl
  policies _ := rfl
  route _ _ := rfl
  policy _ _ := rfl

theorem undisturbed_putRoute {t' : τ} (hne : t' ≠ t) :
    Undisturbed s (s.putRoute t url row call) t' where
  calls := Function.update_of_ne hne _ _
  shared _ := Iff.rfl
  routes _ := Rows.write_pending.trans (if_neg fun h => hne h.1)
  policies _ := rfl
  route _ _ := rfl
  policy _ _ := rfl

theorem undisturbed_putPolicy {t' : τ} (hne : t' ≠ t) :
    Undisturbed s (s.putPolicy t user body call) t' where
  calls := Function.update_of_ne hne _ _
  shared _ := Iff.rfl
  routes _ := rfl
  policies _ := Rows.write_pending.trans (if_neg fun h => hne h.1)
  route _ _ := rfl
  policy _ _ := rfl

theorem undisturbed_share {t' : τ} (hne : t' ≠ t) : Undisturbed s (s.share t url call) t' where
  calls := Function.update_of_ne hne _ _
  shared url' := by
    show Function.update s.shared t _ t' url' ↔ _
    rw [Function.update_of_ne hne]
  routes _ := rfl
  policies _ := rfl
  route _ _ := rfl
  policy _ _ := rfl

/-- What a transaction holds at a statement that is behind it in what it locks. -/
theorem ScopeState.OwnOk.set (h : s.OwnOk settings t)
    (hshares : (s.calls t).sharesRoutes = true → call.sharesRoutes = true)
    (hroutes : (s.calls t).writesRoutes = true → call.writesRoutes = true)
    (hpolicies : (s.calls t).writesPolicies = true → call.writesPolicies = true)
    (hcall : s.CallOk settings t call) : (s.set t call).OwnOk settings t := by
  have hcalls : (s.set t call).calls t = call := Function.update_self _ _ _
  refine ⟨?_, ?_, ?_, ?_, h.granted⟩
  · intro url hshared
    rw [hcalls]
    exact hshares (h.sharing url hshared)
  · intro url hheld
    rw [hcalls]
    exact hroutes (h.routing url hheld)
  · intro user hheld
    rw [hcalls]
    exact hpolicies (h.writing user hheld)
  · rw [hcalls]
    cases call <;> exact hcall

namespace ScopeState.ScopeInv

theorem set (h : s.ScopeInv settings) (hbefore : s.calls t = before)
    (hshares : before.sharesRoutes = true → call.sharesRoutes = true)
    (hroutes : before.writesRoutes = true → call.writesRoutes = true)
    (hpolicies : before.writesPolicies = true → call.writesPolicies = true)
    (hcall : s.CallOk settings t call)
    (hcovers : ∀ user scope, s.Lists user scope → scope ≠ "*" → s.Covers t user scope →
      (s.set t call).BackedAt user scope) : (s.set t call).ScopeInv settings := by
  subst hbefore
  refine ⟨h.routes, h.policies, h.shared, fun t' => ?_, fun user scope hlists hne => ?_⟩
  · by_cases ht : t' = t
    · subst ht
      exact (h.own t').set hshares hroutes hpolicies hcall
    · exact (undisturbed_set ht).ownOk (h.own t')
  · obtain ⟨hpublic, hbacked⟩ := h.backed user scope hlists hne
    exact ⟨hpublic, hbacked.of_others (fun t' ht => undisturbed_set ht)
      (fun url hkept => .inl ⟨url, hkept⟩) (hcovers user scope hlists hne)⟩

/-- The others have no lock that keeps a transaction from a route it may write. -/
theorem not_shared (h : s.ScopeInv settings) (hbefore : s.calls t = before)
    (hnot : before.sharesRoutes = false) (hfree : s.MayWrite t url) (t' : τ) :
    ¬s.shared t' url := by
  subst hbefore
  by_cases ht : t' = t
  · subst ht
    intro hshared
    rw [(h.own t').sharing url hshared] at hnot
    cases hnot
  · exact hfree.2 t' ht

end ScopeState.ScopeInv

/-! ## A write of a route -/

theorem pending_putRoute {t' : τ} : (s.putRoute t url row call).routes.pending t' url' =
    if t' = t ∧ url' = url then some row else s.routes.pending t' url' := Rows.write_pending

theorem kept_putRoute_of_ne (hne : url' ≠ url) (h : s.Kept url' scope) :
    (s.putRoute t url row call).Kept url' scope := by
  refine ⟨h.1, fun t' row' hpending => ?_⟩
  rw [pending_putRoute, if_neg fun heq => hne heq.2] at hpending
  exact h.2 t' row' hpending

/-- A route that is written with its scope stays. -/
theorem kept_putRoute (hrow : s.Kept url scope → row.map RouteBinding.scopeId = some scope)
    (h : s.Kept url' scope) : (s.putRoute t url row call).Kept url' scope := by
  by_cases hurl : url' = url
  · subst hurl
    refine ⟨h.1, fun t' row' hpending => ?_⟩
    rw [pending_putRoute] at hpending
    split_ifs at hpending with ht
    · obtain rfl := Option.some.inj hpending
      exact hrow h
    · exact h.2 t' row' hpending
  · exact kept_putRoute_of_ne hurl h

namespace ScopeState.ScopeInv

theorem putRoute (h : s.ScopeInv settings) (hbefore : s.calls t = before)
    (hfree : s.routes.FreeFor t url) (hunshared : ∀ t', ¬s.shared t' url)
    (hnot : before.sharesRoutes = false) (hroutes : call.writesRoutes = true)
    (hpolicies : before.writesPolicies = true → call.writesPolicies = true)
    (hcall : (s.putRoute t url row call).CallOk settings t call)
    (hkept : ∀ user scope, s.Lists user scope → scope ≠ "*" → scope ≠ settings.publicResourceId →
      s.Kept url scope → (s.putRoute t url row call).BackedAt user scope)
    (hcovers : ∀ user scope, s.Covers t user scope →
      (s.putRoute t url row call).BackedAt user scope) :
    (s.putRoute t url row call).ScopeInv settings := by
  subst hbefore
  have hcalls : (s.putRoute t url row call).calls t = call := Function.update_self _ _ _
  refine ⟨h.routes.write hfree, h.policies, ?_, fun t' => ?_, ?_⟩
  · intro t₁ t₂ url' hshared
    rw [pending_putRoute, if_neg]
    · exact h.shared t₁ t₂ url' hshared
    · rintro ⟨-, rfl⟩
      exact hunshared t₁ hshared
  · by_cases ht : t' = t
    · subst ht
      refine ⟨?_, ?_, ?_, ?_, (h.own t').granted⟩
      · intro url' hshared
        rw [(h.own t').sharing url' hshared] at hnot
        cases hnot
      · intro url' _
        rw [hcalls]
        exact hroutes
      · intro user hheld
        rw [hcalls]
        exact hpolicies ((h.own t').writing user hheld)
      · rw [hcalls]
        exact hcall
    · exact (undisturbed_putRoute ht).ownOk (h.own t')
  · intro user scope hlists hne
    obtain ⟨hpublic, hbacked⟩ := h.backed user scope hlists hne
    refine ⟨hpublic, hbacked.of_others (fun t' ht => undisturbed_putRoute ht) ?_
      (hcovers user scope)⟩
    intro url' hkept'
    by_cases hurl : url' = url
    · subst hurl
      exact hkept user scope hlists hne hpublic hkept'
    · exact .inl ⟨url', kept_putRoute_of_ne hurl hkept'⟩

/-! ## A write of a policy -/

theorem putPolicy (h : s.ScopeInv settings) (hbefore : s.calls t = before)
    (hfree : s.policies.FreeFor t user)
    (hshares : before.sharesRoutes = true → call.sharesRoutes = true)
    (hroutes : before.writesRoutes = true → call.writesRoutes = true)
    (hpolicies : call.writesPolicies = true)
    (hcall : (s.putPolicy t user body call).CallOk settings t call)
    (hgranted : ∀ scope ∈ body.scopes, scope ≠ "*" →
      s.Holds settings t scope ∨ s.Lists user scope)
    (hcovers : ∀ user' scope, s.Covers t user' scope →
      (s.putPolicy t user body call).BackedAt user' scope) :
    (s.putPolicy t user body call).ScopeInv settings := by
  subst hbefore
  have hcalls : (s.putPolicy t user body call).calls t = call := Function.update_self _ _ _
  refine ⟨h.routes, h.policies.write hfree, h.shared, fun t' => ?_, ?_⟩
  · by_cases ht : t' = t
    · subst ht
      refine ⟨?_, ?_, ?_, ?_, ?_⟩
      · intro url hshared
        rw [hcalls]
        exact hshares ((h.own t').sharing url hshared)
      · intro url hheld
        rw [hcalls]
        exact hroutes ((h.own t').routing url hheld)
      · intro user' _
        rw [hcalls]
        exact hpolicies
      · rw [hcalls]
        exact hcall
      · intro user' body' hpending
        have hwritten := Rows.write_pending.symm.trans hpending
        split_ifs at hwritten with huser
        · obtain rfl := huser.2
          obtain rfl := Option.some.inj (Option.some.inj hwritten)
          exact hgranted
        · exact (h.own t').granted user' body' hwritten
    · exact (undisturbed_putPolicy ht).ownOk (h.own t')
  · intro user' scope hlists hne
    obtain ⟨hpublic, hbacked⟩ := h.backed user' scope hlists hne
    exact ⟨hpublic, hbacked.of_others (fun t' ht => undisturbed_putPolicy ht)
      (fun url hkept => .inl ⟨url, hkept⟩) (hcovers user' scope)⟩

/-! ## A lock `FOR SHARE` -/

theorem share (h : s.ScopeInv settings) (hbefore : s.calls t = before)
    (hfree : s.routes.FreeFor t url) (hshares : call.sharesRoutes = true)
    (hnot : before.writesRoutes = false) (hnot' : before.writesPolicies = false)
    (hcall : (s.share t url call).CallOk settings t call) :
    (s.share t url call).ScopeInv settings := by
  subst hbefore
  have hcalls : (s.share t url call).calls t = call := Function.update_self _ _ _
  have hroutes : ∀ url', s.routes.pending t url' = none := by
    intro url'
    by_contra hheld
    rw [(h.own t).routing url' hheld] at hnot
    cases hnot
  have hpolicies : ∀ user, s.policies.pending t user = none := by
    intro user
    by_contra hheld
    rw [(h.own t).writing user hheld] at hnot'
    cases hnot'
  refine ⟨h.routes, h.policies, ?_, fun t' => ?_, ?_⟩
  · intro t₁ t₂ url' hshared
    by_cases ht₁ : t₁ = t
    · subst ht₁
      have hor : url' = url ∨ s.shared t₁ url' := by
        have hself : (s.share t₁ url call).shared t₁ = fun url' => url' = url ∨ s.shared t₁ url' :=
          Function.update_self _ _ _
        rw [hself] at hshared
        exact hshared
      rcases hor with rfl | hshared
      · by_cases ht₂ : t₂ = t₁
        · exact ht₂ ▸ hroutes url'
        · exact hfree t₂ ht₂
      · exact h.shared t₁ t₂ url' hshared
    · exact h.shared t₁ t₂ url' (((undisturbed_share ht₁).shared url').mp hshared)
  · by_cases ht : t' = t
    · subst ht
      refine ⟨?_, ?_, ?_, ?_, ?_⟩
      · intro url' _
        rw [hcalls]
        exact hshares
      · exact fun url' hheld => absurd (hroutes url') hheld
      · exact fun user hheld => absurd (hpolicies user) hheld
      · rw [hcalls]
        exact hcall
      · intro user body hpending
        exact absurd ((hpolicies user).symm.trans hpending) nofun
    · exact (undisturbed_share ht).ownOk (h.own t')
  · intro user scope hlists hne
    obtain ⟨hpublic, hbacked⟩ := h.backed user scope hlists hne
    refine ⟨hpublic, hbacked.of_others (fun t' ht => undisturbed_share ht)
      (fun url hkept => .inl ⟨url, hkept⟩) ?_⟩
    rintro ⟨⟨url', -, hdeleted⟩, -⟩
    exact absurd ((hroutes url').symm.trans hdeleted) nofun

end ScopeState.ScopeInv

/-! ## The end of a transaction -/

section Finish

variable {routes : Rows τ Path RouteBinding} {policies : Rows τ String (PolicyBody υ)}

theorem undisturbed_finish {t' : τ} (hne : t' ≠ t)
    (hroutes : ∀ url, routes.pending t' url = s.routes.pending t' url)
    (hpolicies : ∀ user, policies.pending t' user = s.policies.pending t' user)
    (hroute : ∀ url, s.shared t' url ∨ s.routes.pending t' url ≠ none →
      routes.committed url = s.routes.committed url)
    (hpolicy : ∀ user, s.policies.pending t' user ≠ none →
      policies.committed user = s.policies.committed user) :
    Undisturbed s (s.finish t routes policies) t' where
  calls := Function.update_of_ne hne _ _
  shared url := by
    show Function.update s.shared t _ t' url ↔ _
    rw [Function.update_of_ne hne]
  routes := hroutes
  policies := hpolicies
  route := hroute
  policy := hpolicy

theorem ownOk_finish (hroutes : ∀ url, routes.pending t url = none)
    (hpolicies : ∀ user, policies.pending t user = none) :
    (s.finish t routes policies).OwnOk settings t := by
  have hcalls : (s.finish t routes policies).calls t = .idle := Function.update_self _ _ _
  have hshared : (s.finish t routes policies).shared t = fun _ => False :=
    Function.update_self _ _ _
  refine ⟨?_, fun url hheld => absurd (hroutes url) hheld,
    fun user hheld => absurd (hpolicies user) hheld, ?_, ?_⟩
  · intro url h
    rw [hshared] at h
    exact h.elim
  · rw [hcalls]
    trivial
  · intro user body hpending
    exact absurd ((hpolicies user).symm.trans hpending) nofun

theorem shared_finish (h : s.ScopeInv settings)
    (hroutes : ∀ t' url, routes.pending t' url = if t' = t then none else s.routes.pending t' url)
    (t₁ t₂ : τ) (url : Path) (hshared : (s.finish t routes policies).shared t₁ url) :
    routes.pending t₂ url = none := by
  have hne : t₁ ≠ t := by
    rintro rfl
    have hself : (s.finish t₁ routes policies).shared t₁ = fun _ => False :=
      Function.update_self _ _ _
    rw [hself] at hshared
    exact hshared
  have hkept : s.shared t₁ url := by
    have hother : (s.finish t routes policies).shared t₁ = s.shared t₁ :=
      Function.update_of_ne hne _ _
    rw [hother] at hshared
    exact hshared
  rw [hroutes]
  split_ifs
  · rfl
  · exact h.shared t₁ t₂ url hkept

end Finish

theorem undisturbed_abort {t' : τ} (hne : t' ≠ t) :
    Undisturbed s (s.finish t (s.routes.abort t) (s.policies.abort t)) t' :=
  undisturbed_finish hne (fun _ => Rows.abort_pending.trans (if_neg hne))
    (fun _ => Rows.abort_pending.trans (if_neg hne)) (fun _ _ => rfl) (fun _ _ => rfl)

/-- A route that is kept is there when a transaction has committed. -/
theorem kept_commit (hkept : s.Kept url scope) :
    (s.finish t (s.routes.commit t) (s.policies.commit t)).Kept url scope := by
  refine ⟨?_, fun t' row' hpending => ?_⟩
  · show (s.routes.view t url).map _ = _
    rcases s.routes.view_cases t url with ⟨-, hview⟩ | hpending
    · rw [hview]
      exact hkept.1
    · exact hkept.2 t _ hpending
  · have hwas := Rows.commit_pending.symm.trans hpending
    split_ifs at hwas
    exact hkept.2 t' row' hwas

namespace ScopeState.ScopeInv

/-- The routes that a transaction has deleted are there again when it aborts. -/
theorem abort (h : s.ScopeInv settings) :
    (s.finish t (s.routes.abort t) (s.policies.abort t)).ScopeInv settings := by
  refine ⟨h.routes.abort, h.policies.abort, ?_, fun t' => ?_, ?_⟩
  · exact fun t₁ t₂ url => shared_finish h (fun _ _ => Rows.abort_pending) t₁ t₂ url
  · by_cases ht : t' = t
    · subst ht
      exact ownOk_finish (fun _ => Rows.abort_pending.trans (if_pos rfl))
        (fun _ => Rows.abort_pending.trans (if_pos rfl))
    · exact (undisturbed_abort ht).ownOk (h.own t')
  · intro user scope hlists hne
    obtain ⟨hpublic, hbacked⟩ := h.backed user scope hlists hne
    refine ⟨hpublic, hbacked.of_others (fun t' ht => undisturbed_abort ht) ?_ ?_⟩
    · intro url hkept
      refine .inl ⟨url, hkept.1, fun t' row' hpending => ?_⟩
      have hwas := Rows.abort_pending.symm.trans hpending
      split_ifs at hwas
      exact hkept.2 t' row' hwas
    · rintro ⟨⟨url, hscope, hdeleted⟩, -⟩
      refine .inl ⟨url, hscope, fun t' row' hpending => ?_⟩
      have hwas := Rows.abort_pending.symm.trans hpending
      split_ifs at hwas with ht
      have hheld : s.routes.pending t url ≠ none := by
        rw [hdeleted]
        exact Option.some_ne_none _
      rw [h.routes.freeFor hheld t' ht] at hwas
      cases hwas

theorem undisturbed_commit (h : s.ScopeInv settings) {t' : τ} (hne : t' ≠ t) :
    Undisturbed s (s.finish t (s.routes.commit t) (s.policies.commit t)) t' := by
  refine undisturbed_finish hne (fun _ => Rows.commit_pending.trans (if_neg hne))
    (fun _ => Rows.commit_pending.trans (if_neg hne)) (fun url hlocked => ?_) (fun user hheld => ?_)
  · refine Rows.view_of_none ?_
    rcases hlocked with hshared | hheld
    · exact h.shared t' t url hshared
    · exact h.routes.freeFor hheld t hne.symm
  · exact Rows.view_of_none (h.policies.freeFor hheld t hne.symm)

theorem commit (h : s.ScopeInv settings) (hdone : s.calls t = .done) :
    (s.finish t (s.routes.commit t) (s.policies.commit t)).ScopeInv settings := by
  refine ⟨h.routes.commit, h.policies.commit, ?_, fun t' => ?_, ?_⟩
  · exact fun t₁ t₂ url => shared_finish h (fun _ _ => Rows.commit_pending) t₁ t₂ url
  · by_cases ht : t' = t
    · subst ht
      exact ownOk_finish (fun _ => Rows.commit_pending.trans (if_pos rfl))
        (fun _ => Rows.commit_pending.trans (if_pos rfl))
    · exact (h.undisturbed_commit ht).ownOk (h.own t')
  · rintro user scope ⟨body, hbody, hmem⟩ hne
    -- the transaction has granted the scope, or it was listed before
    have hor : s.Holds settings t scope ∨ s.Lists user scope ∧ ¬s.Rewrote t user scope := by
      rcases s.policies.view_cases t user with ⟨hpending, hview⟩ | hpending
      · refine .inr ⟨⟨body, hview.symm.trans hbody, hmem⟩, ?_⟩
        rintro ⟨body', hpending', -⟩
        exact absurd (hpending.symm.trans hpending') nofun
      · have hwritten : s.policies.pending t user = some (some body) :=
          hpending.trans (congrArg some hbody)
        refine ((h.own t).granted user body hwritten scope hmem hne).imp_right fun hlists =>
          ⟨hlists, ?_⟩
        rintro ⟨body', hpending', hnot⟩
        rw [hwritten] at hpending'
        cases hpending'
        exact hnot hmem
    rcases hor with hholds | ⟨hlists, hnot⟩
    · obtain ⟨url, hkept⟩ := h.kept_of_holds hholds
      exact ⟨hholds.1, .inl ⟨url, kept_commit hkept⟩⟩
    · obtain ⟨hpublic, hbacked⟩ := h.backed user scope hlists hne
      refine ⟨hpublic, hbacked.of_others (fun t' ht => h.undisturbed_commit ht)
        (fun url hkept => .inl ⟨url, kept_commit hkept⟩) ?_⟩
      rintro ⟨-, hstrips⟩
      rw [hdone] at hstrips
      exact absurd hstrips hnot

end ScopeState.ScopeInv

end

end TaiSkeleton.AccessControl
