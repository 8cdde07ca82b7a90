import Mathlib.Algebra.Order.Ring.Int
import Mathlib.Logic.Function.Basic
import TaiSkeleton.Lib.Run

/-!
# The resolver of the connectors

Any number of `resolve_managed_auth` and `force_refresh` calls on one OAuth connection refresh its
token at the provider and write the record back by compare-and-set. The connection lock is advisory,
it can expire or be absent at any point, so that it orders no steps here. Times are in microseconds.
-/

namespace TaiSkeleton.Connectors

open Lib

/-! ## Records -/

/-- `AuthHealthState` -/
inductive AuthHealthState where
  | healthy
  | refreshFailing
  | reconnectRequired
deriving DecidableEq

/-- What the resolver reads and writes of a `ConnectionRecord`. A token is named by the number of
the pair that the provider issued it in. -/
structure ConnectionRecord where
  accessToken : Option ℕ
  accessTokenExpiresAt : Option ℤ
  refreshToken : Option ℕ
  authHealthState : AuthHealthState
  grantedScopes : List String := []
deriving DecidableEq

/-- How a call ends: with a credential, or with one of the typed errors. -/
inductive Outcome where
  | served (accessToken : ℕ)
  | connectionError
  | reconnectRequired
  | refreshFailing
deriving DecidableEq

/-- What a call does with a record it has loaded. -/
inductive Verdict where
  | over (outcome : Outcome)
  | refresh
deriving DecidableEq

/-- `SAFETY_MARGIN_SECONDS` -/
def safetyMargin : ℤ := 60 * 1000000

/-- `TRANSIENT_RETRY_BUDGET` -/
def transientRetryBudget : ℕ := 5

/-- `_managed_auth` -/
def managedAuth (record : ConnectionRecord) : Outcome :=
  match record.accessToken with
  | some accessToken => .served accessToken
  | none => .connectionError

/-- `_serve_peer` -/
def servePeer (peer : ConnectionRecord) : Outcome :=
  match peer.authHealthState with
  | .reconnectRequired => .reconnectRequired
  | .healthy => managedAuth peer
  | .refreshFailing => .refreshFailing

/-- The check of the cooldown. -/
def refreshUnlessCooling (cooling : Bool) : Verdict :=
  if cooling then .over .refreshFailing else .refresh

/-- What `resolve_managed_auth` does with a record, before the lock and under it. The expiry of a
token is only looked at where the record is healthy. -/
def resolveVerdict (now : ℤ) (cooling : Bool) (record : ConnectionRecord) : Verdict :=
  match record.authHealthState, record.accessTokenExpiresAt with
  | .reconnectRequired, _ => .over .reconnectRequired
  | .healthy, none => .over .connectionError
  | .healthy, some expiresAt =>
    if safetyMargin < expiresAt - now then .over (managedAuth record)
    else refreshUnlessCooling cooling
  | .refreshFailing, _ => refreshUnlessCooling cooling

/-- What `force_refresh` does with the record under the lock. -/
def forceVerdict (failedAccessToken : Option ℕ) (cooling : Bool) (record : ConnectionRecord) :
    Verdict :=
  if record.authHealthState = .reconnectRequired then .over .reconnectRequired
  else if failedAccessToken.isSome && record.accessToken.isSome &&
      failedAccessToken != record.accessToken then .over (servePeer record)
  else refreshUnlessCooling cooling

/-! ## Calls -/

/-- A `resolve_managed_auth`, or a `force_refresh` after a call with a token that failed. -/
inductive Call where
  | resolve
  | force (failedAccessToken : Option ℕ)
deriving DecidableEq

/-- What a call does with the record it has loaded under the lock. -/
def Call.verdict (now : ℤ) (cooling : Bool) (record : ConnectionRecord) : Call → Verdict
  | .resolve => resolveVerdict now cooling record
  | .force failedAccessToken => forceVerdict failedAccessToken cooling record

/-- What the provider's answer to a refresh leads the call to persist. -/
inductive Persist where
  | rotated
  | rejected
  | failing
deriving DecidableEq

/-- Where a call is: it waits for the lock, refreshes with a record and the ciphertext it was loaded
from, persists what came of it, or re-reads the record of the peer that it lost to. -/
inductive RefreshStage where
  | idle
  | locking (call : Call)
  | refreshing (record : ConnectionRecord) (started transientAttempts : ℕ)
  | persisting (record : ConnectionRecord) (started : ℕ) (persist : Persist)
  | rereading
  | over (outcome : Outcome)
deriving DecidableEq

/-- The record under the ciphertext of each write, the newest one, the number of the last pair that
the provider has issued, and the calls; with whether a call that had received a pair has completed
its persist step. -/
structure Connection (ι : Type) where
  records : ℕ → ConnectionRecord
  newest : ℕ := 0
  issued : ℕ := 0
  calls : ι → RefreshStage := fun _ => .idle
  persisted : Bool := false

/-- What the provider answers: it issues a pair, or it has consumed the token, or it fails in a way
that is worth a retry. An answer may be lost when the pair is issued already. -/
inductive Answer where
  | issues (expiresAt : ℤ) (grantedScopes : List String)
  | invalidGrant
  | transient
  | lost
deriving DecidableEq

/-- The steps of the calls. -/
inductive RefreshAct (ι : Type) where
  | resolve (call : ι) (now : ℤ) (cooling : Bool)
  | force (call : ι) (failedAccessToken : Option ℕ)
  | enter (call : ι) (now : ℤ) (cooling : Bool)
  | answer (call : ι) (answer : Answer)
  | persist (call : ι)
  | persistRaises (call : ι)
  | reread (call : ι)

/-- The record with a pair of the provider. -/
def ConnectionRecord.rotate (pair : ℕ) (expiresAt : ℤ) (grantedScopes : List String)
    (record : ConnectionRecord) : ConnectionRecord :=
  { accessToken := some pair
    accessTokenExpiresAt := some expiresAt
    refreshToken := some pair
    authHealthState := .healthy
    grantedScopes := if grantedScopes.isEmpty then record.grantedScopes else grantedScopes }

/-- The start of `_refresh`. -/
def startRefresh (record : ConnectionRecord) (started : ℕ) : RefreshStage :=
  match record.refreshToken with
  | none => .over .connectionError
  | some _ => .refreshing record started 0

/-- A refresh after a failure that is worth a retry. -/
def retry (record : ConnectionRecord) (started transientAttempts : ℕ) : RefreshStage :=
  if transientRetryBudget ≤ transientAttempts + 1 then
    .persisting { record with authHealthState := .refreshFailing } started .failing
  else .refreshing record started (transientAttempts + 1)

namespace Connection

variable {ι : Type} [DecidableEq ι]

/-- The record that the store has now. -/
def stored (s : Connection ι) : ConnectionRecord := s.records s.newest

/-- A call goes on to a stage. -/
def goto (call : ι) (stage : RefreshStage) (s : Connection ι) : Connection ι :=
  { s with calls := Function.update s.calls call stage }

/-- A record is written under a new ciphertext. -/
def commit (record : ConnectionRecord) (s : Connection ι) : Connection ι :=
  { s with
    records := Function.update s.records (s.newest + 1) record
    newest := s.newest + 1 }

/-- The step of a call. -/
def next (s : Connection ι) : RefreshAct ι → Option (Connection ι)
  | .resolve call now cooling =>
    match s.calls call with
    | .idle =>
      match resolveVerdict now cooling s.stored with
      | .over outcome => some (s.goto call (.over outcome))
      | .refresh => some (s.goto call (.locking .resolve))
    | _ => none
  | .force call failedAccessToken =>
    match s.calls call with
    | .idle => some (s.goto call (.locking (.force failedAccessToken)))
    | _ => none
  | .enter call now cooling =>
    match s.calls call with
    | .locking kind =>
      match kind.verdict now cooling s.stored with
      | .over outcome => some (s.goto call (.over outcome))
      | .refresh => some (s.goto call (startRefresh s.stored s.newest))
    | _ => none
  | .answer call answer =>
    match s.calls call with
    | .refreshing record started transientAttempts =>
      match answer with
      | .issues expiresAt grantedScopes =>
        if record.refreshToken = some s.issued then
          let pair := s.issued + 1
          some ({ s with issued := pair }.goto call
            (.persisting (record.rotate pair expiresAt grantedScopes) started .rotated))
        else none
      | .invalidGrant =>
        if record.refreshToken.any fun token => decide (token < s.issued) then
          some (s.goto call
            (.persisting { record with authHealthState := .reconnectRequired } started .rejected))
        else none
      | .transient => some (s.goto call (retry record started transientAttempts))
      | .lost =>
        if record.refreshToken = some s.issued then
          some ({ s with issued := s.issued + 1 }.goto call
            (retry record started transientAttempts))
        else none
    | _ => none
  | .persist call =>
    match s.calls call with
    | .persisting record started persist =>
      let s := { s with persisted := s.persisted || decide (persist = Persist.rotated) }
      if started = s.newest then
        let outcome :=
          match persist with
          | .rotated => managedAuth record
          | .rejected => .reconnectRequired
          | .failing => .refreshFailing
        some ((s.commit record).goto call (.over outcome))
      else some (s.goto call .rereading)
    | _ => none
  | .persistRaises call =>
    match s.calls call with
    | .persisting _ _ _ => some (s.goto call (.over .connectionError))
    | _ => none
  | .reread call =>
    match s.calls call with
    | .rereading => some (s.goto call (.over (servePeer s.stored)))
    | _ => none

end Connection

/-- The calls on a connection whose record holds the last pair that the provider has issued. -/
def resolver (ι : Type) [DecidableEq ι] : System (Connection ι) (RefreshAct ι) where
  init s := (∀ call, s.calls call = .idle) ∧ s.persisted = false ∧
    s.stored.accessToken = some s.issued ∧ s.stored.refreshToken = some s.issued ∧
    s.stored.authHealthState ≠ .reconnectRequired
  step s a s' := s.next a = some s'

end TaiSkeleton.Connectors
