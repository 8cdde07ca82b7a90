import Mathlib.Data.List.DropRight
import TaiSkeleton.AccessControl.PolicyBody
import TaiSkeleton.AccessControl.Settings
import TaiSkeleton.Lib.ReadCommitted
import TaiSkeleton.Lib.Run

/-!
# The transactions on routes and policies

The access-control store's transactions, statement by statement, under READ COMMITTED. A statement
on many rows takes those it finds when it starts, one after another: it waits for the lock of each,
and leaves it out if it does not match any more. A grant keeps the routes of its scopes locked
`FOR SHARE`, so that no other transaction writes them until it ends.
-/

namespace TaiSkeleton.AccessControl

open Lib

/-- `_normalize_url` -/
def normalizeUrl (url : Path) : Path :=
  if 1 < url.length ∧ url.getLast? = some '/' then url.rdropWhile (· == '/') else url

/-- A row of `access_control_routes` under its url. -/
structure RouteBinding where
  scopeId : String
  pattern : Option String
deriving DecidableEq

/-- The write of a policy behind the check of its scopes. -/
inductive PolicyGrant (υ : Type) where
  | create (user : String) (body : PolicyBody υ)
  | update (user : String) (updates : PolicyUpdates υ)

/-- The scopes to be checked; the wildcard is not. -/
def PolicyGrant.concrete {υ : Type} : PolicyGrant υ → List String
  | create _ body => body.scopes.filter (· ≠ "*")
  | update _ updates => (updates.scopes.getD []).filter (· ≠ "*")

inductive ScopeRequest (υ : Type) where
  | addUrlToScope (scopeId : String) (url : Path) (pattern : Option String)
  | pinRoutePublic (url : Path) (pattern : Option String)
  | unpinPublicRoute (url : Path)
  | removeUrlFromScope (url : Path)
  | removeScope (scopeId : String)
  | createPolicy (user : String) (scopes : List String) (policyData : Option (Members υ))
      (condition conditionId : Option String) (conditionKwargs : Option (Members υ))
  | updatePolicyFields (user : String) (updates : PolicyUpdates υ)

/-- Where a transaction is: the statement it comes to, or is at with the rows that are left. -/
inductive ScopeCall (υ : Type) where
  | idle
  | upserting (url : Path) (row : RouteBinding)
  | unpinning (url : Path)
  | unpinned (url : Path)
  | finding (url : Path)
  | removing (url : Path) (scope : String)
  | checking (url : Path) (scope : String)
  | removingScope (scope : String)
  | removingRows (scope : String) (urls : Set Path)
  | stripping (scope : String)
  | strippingRows (scope : String) (users : Set String)
  | validating (grant : PolicyGrant υ)
  | lockingRows (grant : PolicyGrant υ) (urls : Set Path) (live : Set String)
  | writing (grant : PolicyGrant υ)
  | updating (user : String) (body : PolicyBody υ)
  | done

/-- The check of a grant's scopes comes first, if there are any. -/
def PolicyGrant.call {υ : Type} (grant : PolicyGrant υ) : ScopeCall υ :=
  if grant.concrete = [] then .writing grant else .validating grant

/-- The first statement of a request; `none` where it raises before its transaction. -/
def ScopeRequest.call {υ : Type} (settings : Settings) : ScopeRequest υ → Option (ScopeCall υ)
  | addUrlToScope scopeId url pattern => some (.upserting (normalizeUrl url) ⟨scopeId, pattern⟩)
  | pinRoutePublic url pattern =>
    if isReservedPrefix settings (normalizeUrl url) then none
    else some (.upserting (normalizeUrl url) ⟨settings.publicResourceId, pattern⟩)
  | unpinPublicRoute url => some (.unpinning (normalizeUrl url))
  | removeUrlFromScope url => some (.finding (normalizeUrl url))
  | removeScope scopeId =>
    if scopeId = settings.publicResourceId then none else some (.removingScope scopeId)
  | createPolicy user scopes policyData condition conditionId conditionKwargs =>
    some (PolicyGrant.create user
      (AccessControl.createPolicy scopes policyData condition conditionId conditionKwargs)).call
  | updatePolicyFields user updates => some (PolicyGrant.update user updates).call

/-- The tables with the locks on them, and where each transaction is; `shared` are the routes that a
transaction has locked `FOR SHARE`. -/
structure ScopeState (τ υ : Type) where
  routes : Rows τ Path RouteBinding
  shared : τ → Path → Prop
  policies : Rows τ String (PolicyBody υ)
  calls : τ → ScopeCall υ

inductive ScopeAct (τ υ : Type) where
  | start (t : τ) (request : ScopeRequest υ)
  | step (t : τ)
  | commit (t : τ)
  | abort (t : τ)

namespace ScopeState

variable {τ υ : Type}

/-- The scope of a route as a transaction reads it. -/
def scopeOf (s : ScopeState τ υ) (t : τ) (url : Path) : Option String :=
  (s.routes.view t url).map RouteBinding.scopeId

/-- The scopes of a policy as a transaction reads it. -/
def scopesOf (s : ScopeState τ υ) (t : τ) (user : String) : List String :=
  (s.policies.view t user).elim [] PolicyBody.scopes

/-- The locks of the others let a transaction write a route. -/
def MayWrite (s : ScopeState τ υ) (t : τ) (url : Path) : Prop :=
  s.routes.FreeFor t url ∧ ∀ t', t' ≠ t → ¬s.shared t' url

/-- The routes that a grant's check asks for. -/
def Asked (s : ScopeState τ υ) (settings : Settings) (t : τ) (grant : PolicyGrant υ)
    (url : Path) : Prop :=
  ∃ scope ∈ s.scopeOf t url, scope ∈ grant.concrete ∧ scope ≠ settings.publicResourceId

variable [DecidableEq τ]

def set (s : ScopeState τ υ) (t : τ) (call : ScopeCall υ) : ScopeState τ υ :=
  { s with calls := Function.update s.calls t call }

/-- A route is written, or locked `FOR UPDATE` as it is. -/
def putRoute (s : ScopeState τ υ) (t : τ) (url : Path) (row : Option RouteBinding)
    (call : ScopeCall υ) : ScopeState τ υ :=
  { s with routes := s.routes.write t url row, calls := Function.update s.calls t call }

/-- A policy is written, or locked `FOR UPDATE` as it is. -/
def putPolicy (s : ScopeState τ υ) (t : τ) (user : String) (body : PolicyBody υ)
    (call : ScopeCall υ) : ScopeState τ υ :=
  { s with
    policies := s.policies.write t user (some body)
    calls := Function.update s.calls t call }

/-- A route is locked `FOR SHARE`. -/
def share (s : ScopeState τ υ) (t : τ) (url : Path) (call : ScopeCall υ) : ScopeState τ υ :=
  { s with
    shared := Function.update s.shared t fun url' => url' = url ∨ s.shared t url'
    calls := Function.update s.calls t call }

/-- A transaction ends, and its locks are gone. -/
def finish (s : ScopeState τ υ) (t : τ) (routes : Rows τ Path RouteBinding)
    (policies : Rows τ String (PolicyBody υ)) : ScopeState τ υ where
  routes := routes
  shared := Function.update s.shared t fun _ => False
  policies := policies
  calls := Function.update s.calls t .idle

end ScopeState

section

variable {τ υ : Type} [DecidableEq τ]

/-- The next statement of a transaction, or its next row. -/
inductive Advance (settings : Settings) (s : ScopeState τ υ) (t : τ) :
    ScopeCall υ → ScopeState τ υ → Prop where
  | upsert {url : Path} {row : RouteBinding} (hfree : s.MayWrite t url) :
    Advance settings s t (.upserting url row) (s.putRoute t url (some row) .done)
  | lockPin {url : Path} {row : RouteBinding} (hfree : s.MayWrite t url)
    (hrow : s.routes.view t url = some row) : Advance settings s t (.unpinning url)
      (s.putRoute t url (some row)
        (if row.scopeId = settings.publicResourceId then .unpinned url else .done))
  | noPin {url : Path} (hrow : s.routes.view t url = none) :
    Advance settings s t (.unpinning url) (s.set t .done)
  | unpin {url : Path} : Advance settings s t (.unpinned url) (s.putRoute t url none .done)
  | find {url : Path} {scope : String} (hscope : s.scopeOf t url = some scope) :
    Advance settings s t (.finding url) (s.set t (.removing url scope))
  | findNone {url : Path} (hrow : s.routes.view t url = none) :
    Advance settings s t (.finding url) (s.set t .done)
  | remove {url : Path} {scope : String} {row : RouteBinding} (hfree : s.MayWrite t url)
    (hrow : s.routes.view t url = some row) : Advance settings s t (.removing url scope)
      (s.putRoute t url none
        (if scope = settings.publicResourceId then .done else .checking url scope))
  | removeNone {url : Path} {scope : String} (hrow : s.routes.view t url = none) :
    Advance settings s t (.removing url scope)
      (s.set t (if scope = settings.publicResourceId then .done else .checking url scope))
  | check {url url' : Path} {scope : String} (hfound : s.scopeOf t url' = some scope) :
    Advance settings s t (.checking url scope) (s.set t .done)
  | checkNone {url : Path} {scope : String} (hnone : ∀ url', s.scopeOf t url' ≠ some scope) :
    Advance settings s t (.checking url scope) (s.set t (.stripping scope))
  | removeScope {scope : String} : Advance settings s t (.removingScope scope)
      (s.set t (.removingRows scope {url | s.scopeOf t url = some scope}))
  | removeRow {scope : String} {urls : Set Path} {url : Path} (hurl : url ∈ urls)
    (hfree : s.MayWrite t url) (hscope : s.scopeOf t url = some scope) :
    Advance settings s t (.removingRows scope urls)
      (s.putRoute t url none (.removingRows scope (urls \ {url})))
  | leaveRow {scope : String} {urls : Set Path} {url : Path} (hurl : url ∈ urls)
    (hfree : s.MayWrite t url) (hscope : s.scopeOf t url ≠ some scope) :
    Advance settings s t (.removingRows scope urls)
      (s.set t (.removingRows scope (urls \ {url})))
  | removedScope {scope : String} {urls : Set Path} (hend : ∀ url, url ∉ urls) :
    Advance settings s t (.removingRows scope urls) (s.set t (.stripping scope))
  | strip {scope : String} : Advance settings s t (.stripping scope)
      (s.set t (.strippingRows scope {user | scope ∈ s.scopesOf t user}))
  | stripRow {scope user : String} {users : Set String} {body : PolicyBody υ}
    (huser : user ∈ users) (hfree : s.policies.FreeFor t user)
    (hbody : s.policies.view t user = some body) (hscope : scope ∈ body.scopes) :
    Advance settings s t (.strippingRows scope users)
      (s.putPolicy t user (stripScope scope body) (.strippingRows scope (users \ {user})))
  | leavePolicy {scope user : String} {users : Set String} (huser : user ∈ users)
    (hfree : s.policies.FreeFor t user) (hscope : scope ∉ s.scopesOf t user) :
    Advance settings s t (.strippingRows scope users)
      (s.set t (.strippingRows scope (users \ {user})))
  | stripped {scope : String} {users : Set String} (hend : ∀ user, user ∉ users) :
    Advance settings s t (.strippingRows scope users) (s.set t .done)
  | validate {grant : PolicyGrant υ} : Advance settings s t (.validating grant)
      (s.set t (.lockingRows grant {url | s.Asked settings t grant url} ∅))
  | lockRow {grant : PolicyGrant υ} {urls : Set Path} {live : Set String} {url : Path}
    {scope : String} (hurl : url ∈ urls) (hfree : s.routes.FreeFor t url)
    (hscope : s.scopeOf t url = some scope) (hasked : s.Asked settings t grant url) :
    Advance settings s t (.lockingRows grant urls live)
      (s.share t url (.lockingRows grant (urls \ {url}) (insert scope live)))
  | skipRow {grant : PolicyGrant υ} {urls : Set Path} {live : Set String} {url : Path}
    (hurl : url ∈ urls) (hfree : s.routes.FreeFor t url)
    (hasked : ¬s.Asked settings t grant url) :
    Advance settings s t (.lockingRows grant urls live)
      (s.set t (.lockingRows grant (urls \ {url}) live))
  | validated {grant : PolicyGrant υ} {urls : Set Path} {live : Set String}
    (hend : ∀ url, url ∉ urls) (hlive : ∀ scope ∈ grant.concrete, scope ∈ live) :
    Advance settings s t (.lockingRows grant urls live) (s.set t (.writing grant))
  | insert {user : String} {body : PolicyBody υ} (hfree : s.policies.FreeFor t user)
    (hrow : s.policies.view t user = none) :
    Advance settings s t (.writing (.create user body)) (s.putPolicy t user body .done)
  | lockPolicy {user : String} {updates : PolicyUpdates υ} {body : PolicyBody υ}
    (hfree : s.policies.FreeFor t user) (hbody : s.policies.view t user = some body) :
    Advance settings s t (.writing (.update user updates))
      (s.putPolicy t user body (.updating user (updatePolicyFields updates body)))
  | noPolicy {user : String} {updates : PolicyUpdates υ}
    (hrow : s.policies.view t user = none) :
    Advance settings s t (.writing (.update user updates)) (s.set t .done)
  | update {user : String} {body : PolicyBody υ} :
    Advance settings s t (.updating user body) (s.putPolicy t user body .done)

/-- A step of the transactions. A transaction may end at any time without a trace, be it that a
scope is refused, or a user has a policy already. -/
inductive ScopeStep (settings : Settings) (s : ScopeState τ υ) :
    ScopeAct τ υ → ScopeState τ υ → Prop where
  | start {t : τ} {request : ScopeRequest υ} {call : ScopeCall υ} (hidle : s.calls t = .idle)
    (hcall : request.call settings = some call) :
    ScopeStep settings s (.start t request) (s.set t call)
  | step {t : τ} {s' : ScopeState τ υ} (h : Advance settings s t (s.calls t) s') :
    ScopeStep settings s (.step t) s'
  | commit {t : τ} (hdone : s.calls t = .done) :
    ScopeStep settings s (.commit t) (s.finish t (s.routes.commit t) (s.policies.commit t))
  | abort {t : τ} :
    ScopeStep settings s (.abort t) (s.finish t (s.routes.abort t) (s.policies.abort t))

variable (τ υ) in
/-- The transactions on tables that are empty at first. -/
def scopeTransactions (settings : Settings) : System (ScopeState τ υ) (ScopeAct τ υ) where
  init s := s = ⟨.empty, fun _ _ => False, .empty, fun _ => .idle⟩
  step := ScopeStep settings

end

end TaiSkeleton.AccessControl
