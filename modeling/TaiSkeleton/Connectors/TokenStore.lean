import Mathlib.Algebra.Order.Ring.Int
import Mathlib.Logic.Function.Basic
import TaiSkeleton.Lib.Run

/-!
# The token store of the connectors

The record of one connection is a row in Postgres with a hash in Redis in front of it. `get`, `put`
and `delete` are calls that take one SQL statement, one script or one command of Redis at a time.
Times are in microseconds, those that Redis is given in seconds.
-/

namespace TaiSkeleton.Connectors

open Lib

/-! ## The row and its cache -/

/-- A row of `connector_connections`. -/
structure Row (β : Type) where
  encryptedBlob : β
  sessionExpiresAt : Option ℤ
  cacheVersion : ℕ
deriving DecidableEq

/-- The hash under a record's key: the version field, the blob field, which a tombstone has not,
and the expiry of the key. -/
structure CacheHash (β : Type) where
  ver : ℕ
  blob : Option β
  expireAt : Option ℤ
deriving DecidableEq

section

variable {β : Type}

/-- `_expireat_arg` -/
def expireatArg (sessionExpiresAt : Option ℤ) : Option ℤ :=
  sessionExpiresAt.map (Int.tdiv · 1000000)

/-- An expiry that Redis is given when it has passed. -/
def isPast (now : ℤ) (expireAt : Option ℤ) : Bool :=
  expireAt.any fun seconds => decide (seconds * 1000000 ≤ now)

/-- What `PERSIST` or `EXPIREAT` leaves of a hash: a key that is to expire in the past is gone. -/
def expiring (now : ℤ) (hash : CacheHash β) : Option (CacheHash β) :=
  if isPast now hash.expireAt then none else some hash

/-- `_CACHE_SET_IF_NEWER_LUA` -/
def cacheSetIfNewer (row : Row β) (now : ℤ) (key : Option (CacheHash β)) :
    Option (CacheHash β) :=
  if key.all fun hash => decide (hash.ver < row.cacheVersion) then
    expiring now
      { ver := row.cacheVersion
        blob := some row.encryptedBlob
        expireAt := expireatArg row.sessionExpiresAt }
  else key

/-- `_CACHE_TOMBSTONE_LUA` -/
def cacheTombstone (version : ℕ) (expireAt now : ℤ) (key : Option (CacheHash β)) :
    Option (CacheHash β) :=
  if key.all fun hash => decide (hash.ver ≤ version) then
    expiring now { ver := version, blob := none, expireAt := some expireAt }
  else key

/-! ## The statements on the row -/

/-- How a `put` writes. -/
inductive PutMode (β : Type) where
  | createOnly
  | compareAndSet (expectedBlob : β)
  | upsert

/-- `inserts` -/
def PutMode.inserts {β : Type} : PutMode β → Bool
  | .createOnly | .upsert => true
  | .compareAndSet _ => false

/-- What a `put` raises: `AliasInUseError` or `ConnectorError`. -/
inductive PutError where
  | aliasInUse
  | recordExists
deriving DecidableEq

/-- The row that the statement of a `put` commits; `none` where a compare-and-set has lost.
`aliasTaken` is whether another connection of the provider has the alias. -/
def putRow [DecidableEq β] (mode : PutMode β) (blob : β) (sessionExpiresAt : Option ℤ)
    (aliasTaken : Bool) (row : Option (Row β)) : Except PutError (Option (Row β)) :=
  match mode, row with
  | .createOnly, some _ => .error .recordExists
  | .compareAndSet _, none => .ok none
  | .compareAndSet expectedBlob, some row =>
    if row.encryptedBlob = expectedBlob then
      .ok (some ⟨blob, sessionExpiresAt, row.cacheVersion + 1⟩)
    else .ok none
  | .createOnly, none | .upsert, none =>
    if aliasTaken then .error .aliasInUse else .ok (some ⟨blob, sessionExpiresAt, 1⟩)
  | .upsert, some row =>
    if aliasTaken then .error .aliasInUse
    else .ok (some ⟨blob, sessionExpiresAt, row.cacheVersion + 1⟩)

/-- The row that the statement of a `get` reads. -/
def selectRow (includeExpired : Bool) (now : ℤ) (row : Option (Row β)) : Option (Row β) :=
  row.filter fun row =>
    includeExpired || row.sessionExpiresAt.all fun expiry => decide (now < expiry)

/-- Whether a `get` repopulates the cache with a row. -/
def repopulates (now : ℤ) (row : Row β) : Bool :=
  (expireatArg row.sessionExpiresAt).all fun epoch => decide (Int.tdiv now 1000000 < epoch)

end

/-! ## The calls -/

/-- What the calls that have run to their end have settled: the newest version that one of their
`put`s has committed, and whether one of their `delete`s has deleted the row. -/
structure Settled where
  version : ℕ := 0
  deleted : Bool := false
deriving DecidableEq

/-- What a call is to do to the cache: a `get` repopulates it with the row it has read, a `put`
refreshes it with the row it has committed, a `delete` clears it. -/
inductive CacheWrite (β : Type) where
  | populate (since : Settled) (row : Row β)
  | refresh (row : Row β)
  | clear (deletedVersion : Option ℕ)
deriving DecidableEq

/-- Where a call is. A `get` keeps what was settled when it started, and at its end the version of
the blob that it has returned. -/
inductive Stage (β : Type) where
  | idle
  | reading (since : Settled) (includeExpired : Bool)
  | missed (since : Settled) (includeExpired : Bool)
  | writing (write : CacheWrite β)
  | invalidating (write : CacheWrite β)
  | got (since : Settled) (record : Option (ℕ × β))
deriving DecidableEq

namespace CacheWrite

variable {β : Type}

/-- What the script or command leaves of the key. -/
def run (expireAt now : ℤ) (key : Option (CacheHash β)) : CacheWrite β → Option (CacheHash β)
  | .populate _ row | .refresh row => cacheSetIfNewer row now key
  | .clear none => none
  | .clear (some deletedVersion) => cacheTombstone deletedVersion expireAt now key

/-- Whether the script or command gives the key an expiry that has passed, or none at all. -/
def drops (expireAt now : ℤ) : CacheWrite β → Bool
  | .populate _ row | .refresh row => isPast now (expireatArg row.sessionExpiresAt)
  | .clear none => true
  | .clear (some _) => isPast now (some expireAt)

/-- The version of the row that a call is to install. -/
def held : CacheWrite β → Option ℕ
  | .populate _ row | .refresh row => some row.cacheVersion
  | .clear _ => none

/-- The version that a `delete` has deleted. -/
def deleted : CacheWrite β → Option ℕ
  | .populate _ _ | .refresh _ => none
  | .clear deletedVersion => deletedVersion

/-- What is settled once the call is at its end. -/
def settle (settled : Settled) : CacheWrite β → Settled
  | .populate _ _ | .clear none => settled
  | .refresh row => { settled with version := max settled.version row.cacheVersion }
  | .clear (some _) => { settled with deleted := true }

/-- The end of the call. -/
def finish : CacheWrite β → Stage β
  | .populate since row => .got since (some (row.cacheVersion, row.encryptedBlob))
  | .refresh _ | .clear _ => .idle

end CacheWrite

/-- The row, the key and the calls that are under way, with the newest version committed. -/
structure Store (β ι : Type) where
  row : Option (Row β) := none
  key : Option (CacheHash β) := none
  calls : ι → Stage β := fun _ => .idle
  settled : Settled := {}
  committed : ℕ := 0

/-- The steps of the calls, and the eviction or expiry of the key. A script that fails may have
been applied. -/
inductive Act (β ι : Type) where
  | get (call : ι) (includeExpired : Bool)
  | hget (call : ι) (fails : Bool)
  | select (call : ι) (now workerNow : ℤ)
  | put (call : ι) (mode : PutMode β) (blob : β) (sessionExpiresAt : Option ℤ) (aliasTaken : Bool)
  | delete (call : ι)
  | script (call : ι) (expireAt now : ℤ)
  | scriptFails (call : ι) (applied : Bool) (expireAt now : ℤ)
  | invalidate (call : ι)
  | invalidateFails (call : ι)
  | vanish

namespace Store

variable {β ι : Type} [DecidableEq ι]

/-- A call goes on to a stage. -/
def goto (call : ι) (stage : Stage β) (s : Store β ι) : Store β ι :=
  { s with calls := Function.update s.calls call stage }

/-- A call runs to its end. -/
def finish (call : ι) (write : CacheWrite β) (s : Store β ι) : Store β ι :=
  { s with settled := write.settle s.settled }.goto call write.finish

/-- The step of a call. -/
def next [DecidableEq β] (s : Store β ι) : Act β ι → Option (Store β ι)
  | .get call includeExpired =>
    match s.calls call with
    | .idle => some (s.goto call (.reading s.settled includeExpired))
    | _ => none
  | .hget call fails =>
    match s.calls call with
    | .reading since includeExpired =>
      match fails, s.key with
      | false, some ⟨ver, some blob, _⟩ => some (s.goto call (.got since (some (ver, blob))))
      | _, _ => some (s.goto call (.missed since includeExpired))
    | _ => none
  | .select call now workerNow =>
    match s.calls call with
    | .missed since includeExpired =>
      match selectRow includeExpired now s.row with
      | none => some (s.goto call (.got since none))
      | some row =>
        if repopulates workerNow row then some (s.goto call (.writing (.populate since row)))
        else some (s.goto call (.got since (some (row.cacheVersion, row.encryptedBlob))))
    | _ => none
  | .put call mode blob sessionExpiresAt aliasTaken =>
    match s.calls call with
    | .idle =>
      match putRow mode blob sessionExpiresAt aliasTaken s.row with
      | .ok (some row) =>
        some ({ s with row := some row, committed := row.cacheVersion }.goto call
          (.writing (.refresh row)))
      | _ => some s
    | _ => none
  | .delete call =>
    match s.calls call with
    | .idle =>
      some ({ s with row := none }.goto call (.writing (.clear (s.row.map Row.cacheVersion))))
    | _ => none
  | .script call expireAt now =>
    match s.calls call with
    | .writing write =>
      some ({ s with key := write.run expireAt now s.key }.finish call write)
    | _ => none
  | .scriptFails call applied expireAt now =>
    match s.calls call with
    | .writing write =>
      let key := if applied then write.run expireAt now s.key else s.key
      some ({ s with key }.goto call (.invalidating write))
    | _ => none
  | .invalidate call =>
    match s.calls call with
    | .invalidating write => some ({ s with key := none }.finish call write)
    | _ => none
  | .invalidateFails call =>
    match s.calls call with
    | .invalidating write => some (s.finish call write)
    | _ => none
  | .vanish => some { s with key := none }

end Store

/-- The calls on one connection. -/
def tokenStore (β ι : Type) [DecidableEq β] [DecidableEq ι] : System (Store β ι) (Act β ι) where
  init s := s = {}
  step s a s' := s.next a = some s'

end TaiSkeleton.Connectors
