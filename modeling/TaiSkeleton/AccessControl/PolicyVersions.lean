import TaiSkeleton.Lib.Run
import TaiSkeleton.Lib.VersionedCache

/-!
# The policy version

Every mutation of the policies, the routes and the roles commits its rows and then increments the
policy version, and each worker caches the rows under the version of the decision that reads them.
A revoke of a key has steps of its own, and may be repeated where it has failed.
-/

namespace TaiSkeleton.AccessControl

open Lib

/-- The rows that the caches of `PolicyEnforcer`, `AccessControlVerifier` and the role grants
keep. -/
inductive PolicyRow where
  | policy (user : String)
  | route (url : String)
  | patterns
  | role (name : String)
deriving DecidableEq

/-- Where a mutation stands; `commit` is the number of its commit, and `owes` that of the last
revoke of the user that had failed when this one began. -/
inductive MutationCall where
  | mutating
  | committed (commit : ℕ)
  | bumped (commit : ℕ)
  | revoking (user : String) (owes : ℕ)
  /-- The identity record is there. -/
  | found (user : String) (owes : ℕ)
  | deleted (user : String) (owes commit : ℕ)
  | incremented (user : String) (owes commit : ℕ)
  /-- The live context is deleted. -/
  | cleared (user : String) (owes commit : ℕ)
  /-- The identity record is gone: the revoke returns `True`. -/
  | revoked (user : String) (owes commit : ℕ)
  /-- There is no identity record: the revoke returns `False`. -/
  | absent (user : String) (owes : ℕ)

/-- The rows, their caches and the decisions on any number of workers; `returned` is the last commit
of a mutation that has returned, and `failed` that of a revoke that has failed before its
increment. -/
structure PolicyDeployment (ν : Type) where
  cached : Cached PolicyRow ν ℕ
  identities : String → Bool
  contexts : String → Bool
  returned : ℕ
  failed : String → ℕ
  calls : ℕ → Option MutationCall

/-- A mutation or a revoke is called, takes its next step or fails; an identity is provisioned; a
decision reads the version, or takes a step on its caches. -/
inductive PolicyStep (ν : Type) where
  | mutate (i : ℕ)
  | revoke (i : ℕ) (user : String)
  | step (i : ℕ) (updates : List (PolicyRow × Option ν))
  | crash (i : ℕ)
  | provision (user : String)
  | decide (d worker : ℕ)
  | read (step : ReadStep PolicyRow ℕ)

namespace PolicyDeployment

variable {ν : Type} (s : PolicyDeployment ν)

def source : Versioned PolicyRow ν := s.cached.source

def setSource (source : Versioned PolicyRow ν) : PolicyDeployment ν :=
  { s with cached := { s.cached with source := source } }

def goOn (i : ℕ) (call : Option MutationCall) : PolicyDeployment ν :=
  { s with calls := Function.update s.calls i call }

/-- A call returns, and its commit is one that decisions must see. -/
def finish (i commit : ℕ) : PolicyDeployment ν :=
  { s.goOn i none with returned := max s.returned commit }

/-- A policy row as it stands. -/
def policy (user : String) : Option ν := s.source.rowAt s.source.log.length (.policy user)

def stepCall (i : ℕ) (updates : List (PolicyRow × Option ν)) :
    MutationCall → PolicyDeployment ν
  | .mutating =>
    (s.setSource (s.source.commit updates)).goOn i (some (.committed (s.source.log.length + 1)))
  | .committed commit => (s.setSource s.source.bump).goOn i (some (.bumped commit))
  | .bumped commit => s.finish i commit
  | .revoking user owes =>
    s.goOn i (some (if s.identities user then .found user owes else .absent user owes))
  | .found user owes =>
    match s.policy user with
    | none => s.goOn i (some (.deleted user owes 0))
    | some _ =>
      (s.setSource (s.source.commit [(.policy user, none)])).goOn i
        (some (.deleted user owes (s.source.log.length + 1)))
  | .deleted user owes commit =>
    (s.setSource s.source.bump).goOn i (some (.incremented user owes commit))
  | .incremented user owes commit =>
    { s with contexts := Function.update s.contexts user false }.goOn i
      (some (.cleared user owes commit))
  | .cleared user owes commit =>
    { s with identities := Function.update s.identities user false }.goOn i
      (some (.revoked user owes commit))
  | .revoked _ owes commit => s.finish i (max owes commit)
  | .absent _ owes => s.finish i owes

/-- What a call leaves that fails. -/
def crashCall (i : ℕ) : MutationCall → PolicyDeployment ν
  | .deleted user _ commit =>
    { s.goOn i none with
      failed := Function.update s.failed user (max (s.failed user) commit) }
  | _ => s.goOn i none

def call (i : ℕ) (first : MutationCall) : Option (PolicyDeployment ν) :=
  match s.calls i with
  | none => some (s.goOn i (some first))
  | some _ => none

def next : PolicyStep ν → Option (PolicyDeployment ν)
  | .mutate i => s.call i .mutating
  | .revoke i user => s.call i (.revoking user (s.failed user))
  | .step i updates => (s.calls i).map (s.stepCall i updates)
  | .crash i => (s.calls i).map (s.crashCall i)
  | .provision user => some { s with identities := Function.update s.identities user true }
  | .decide d worker =>
    (s.cached.read (.start d worker s.returned)).map fun cached => { s with cached := cached }
  | .read (.start ..) => none
  | .read step => (s.cached.read step).map fun cached => { s with cached := cached }

/-- Before the mutations and the decisions. -/
structure First : Prop where
  log : s.source.log = []
  version : s.source.version = 0
  bumpAt : s.source.bumpAt = fun _ => 0
  fetches : s.cached.fetches = fun _ => none
  slots : s.cached.slots = fun _ _ _ => none
  readers : s.cached.readers = fun _ => none
  returned : s.returned = 0
  failed : s.failed = fun _ => 0
  calls : s.calls = fun _ => none

end PolicyDeployment

/-- The runs of the mutations and the decisions. -/
def policyMutationsAndReads (ν : Type) : System (PolicyDeployment ν) (PolicyStep ν) where
  init := PolicyDeployment.First
  step s a s' := s.next a = some s'

end TaiSkeleton.AccessControl
