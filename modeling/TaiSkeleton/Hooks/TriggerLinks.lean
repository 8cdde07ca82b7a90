import Mathlib.Algebra.Order.Ring.Int
import Mathlib.Data.List.Basic
import TaiSkeleton.Lib.Run

/-!
# Trigger links

A link is a record under the hash of its token and a name key that holds the hash; a revoked hash
has a tombstone. Each of the four scripts runs at once on the store, and a call takes its other
steps before and after it.
-/

namespace TaiSkeleton.Hooks

open Lib

/-- A string of Python, by its code points. -/
abbrev Text := List ℕ

/-- A JSON value; a number is its literal. -/
inductive Value where
  | null
  | bool (b : Bool)
  | num (literal : Text)
  | str (text : Text)
  | list (items : List Value)
  | dict (fields : List (Text × Value))

/-- What `datetime.fromisoformat` makes of a text: an error, a time without a zone, or a time in
microseconds. -/
inductive Stamp where
  | unparseable
  | naive
  | at (micros : ℤ)
deriving DecidableEq

/-- `_TriggerRecord` -/
structure TriggerRecord where
  name : Text
  topic : Text
  executionKey : Text
  executionKeyFingerprint : Text
  requireApiKey : Bool
  toolKwargs : Option (List (Text × Value))
  createdBy : Option Text
  createdAt : Stamp
  expiresAt : Option Stamp

/-! ## What `cjson.decode` accepts -/

/-- The escapes that `json.dumps` writes for a text, as UTF-16. -/
def utf16 (text : Text) : List ℕ :=
  text.flatMap fun c =>
    if c < 0x10000 then [c]
    else [0xd800 + (c - 0x10000) / 0x400, 0xdc00 + (c - 0x10000) % 0x400]

def isHigh (u : ℕ) : Bool := 0xd800 ≤ u && u < 0xdc00

def isLow (u : ℕ) : Bool := 0xdc00 ≤ u && u < 0xe000

/-- Each surrogate is half of a pair. -/
def surrogatesPaired : List ℕ → Bool
  | [] => true
  | [u] => !isHigh u && !isLow u
  | u :: v :: rest =>
    if isHigh u then isLow v && surrogatesPaired rest
    else !isLow u && surrogatesPaired (v :: rest)

/-- A string without an escape of a lone surrogate. -/
def textDecodes (text : Text) : Bool := surrogatesPaired (utf16 text)

/-- The value decodes with so many levels of nesting left. -/
def Value.decodes : ℕ → Value → Bool
  | _, .str text => textDecodes text
  | 0, .list _ | 0, .dict _ => false
  | depth + 1, .list items => items.all (decodes depth)
  | depth + 1, .dict fields => fields.all fun field => textDecodes field.1 && decodes depth field.2
  | _, _ => true

namespace TriggerRecord

/-- `cjson.decode` does not raise on the record; it stops at a thousand levels, and the record is
the first of them. -/
def decodes (record : TriggerRecord) : Bool :=
  textDecodes record.name && textDecodes record.topic && textDecodes record.executionKey &&
    textDecodes record.executionKeyFingerprint && record.createdBy.all textDecodes &&
    record.toolKwargs.all fun fields => (Value.dict fields).decodes 999

end TriggerRecord

/-! ## The store and its scripts -/

/-- A key with the moment at which it expires. -/
structure Kept (α : Type) where
  value : α
  deadline : Option ℤ

/-- The keys of the trigger links, and the time in milliseconds. -/
structure LinkStore where
  now : ℤ
  names : Text → Option (Kept Text)
  records : Text → Option (Kept TriggerRecord)
  tombs : Text → Bool

/-- The key is there after the time has come. -/
def Kept.live {α : Type} (now : ℤ) (kept : Kept α) : Bool :=
  match kept.deadline with
  | none => true
  | some deadline => now < deadline

namespace LinkStore

/-- Time passes, and what has expired is gone. -/
def tick (s : LinkStore) (now : ℤ) : LinkStore where
  now := now
  names name := (s.names name).filter (Kept.live now)
  records hash := (s.records hash).filter (Kept.live now)
  tombs := s.tombs

/-- `SET … EX ttl` of both keys, or without an expiry for a `ttl` of zero. -/
def writePair (s : LinkStore) (name hash : Text) (record : TriggerRecord) (ttl : ℕ) : LinkStore :=
  let deadline := if 0 < ttl then some (s.now + 1000 * ttl) else none
  { s with
    names := Function.update s.names name (some ⟨hash, deadline⟩)
    records := Function.update s.records hash (some ⟨record, deadline⟩) }

def delName (s : LinkStore) (name : Text) : LinkStore :=
  { s with names := Function.update s.names name none }

def delRecord (s : LinkStore) (hash : Text) : LinkStore :=
  { s with records := Function.update s.records hash none }

def setTomb (s : LinkStore) (hash : Text) : LinkStore :=
  { s with tombs := Function.update s.tombs hash true }

/-- `_CREATE_LUA`; `none` where the name is taken. -/
def createScript (s : LinkStore) (name hash : Text) (record : TriggerRecord) (ttl : ℕ) :
    Option LinkStore :=
  if (s.names name).isSome then none else some (s.writePair name hash record ttl)

/-- `_REVOKE_LUA`: the hash that it killed; `none` for a name that is not there. -/
def revokeScript (s : LinkStore) (name : Text) : Option (Text × LinkStore) :=
  (s.names name).map fun kept =>
    (kept.value, ((s.delRecord kept.value).delName name).setTomb kept.value)

inductive RestoreOutcome where
  | skippedTombstoned
  | hashConflict
  | updated
  | created
deriving DecidableEq

/-- `_RESTORE_LUA` -/
def restoreScript (s : LinkStore) (name hash : Text) (record : TriggerRecord) (ttl : ℕ) :
    RestoreOutcome × LinkStore :=
  if s.tombs hash then (.skippedTombstoned, s)
  else
    match s.names name with
    | some current =>
      if current.value = hash then (.updated, s.writePair name hash record ttl)
      else if (s.records hash).isSome then (.hashConflict, s)
      else (.updated, (s.delRecord current.value).writePair name hash record ttl)
    | none =>
      if (s.records hash).isSome then (.hashConflict, s)
      else (.created, s.writePair name hash record ttl)

/-- `_TOMBSTONE_LUA`: whether it killed a record; `none` is the error of `cjson.decode`, which
leaves what the script has written until then. -/
def tombstoneScript (s : LinkStore) (hash : Text) : Option Bool × LinkStore :=
  match s.records hash with
  | none => (some false, s.setTomb hash)
  | some kept =>
    let killed := (s.setTomb hash).delRecord hash
    if kept.value.decodes then
      match s.names kept.value.name with
      | none => (some true, killed)
      | some current =>
        (some true, if current.value = hash then killed.delName kept.value.name else killed)
    else (none, killed)

end LinkStore

/-! ## The calls -/

/-- `TriggerLinkError`, by its status and what it is about. -/
inductive TriggerLinkError where
  | emptyTopic
  | emptyExecutionKey
  | ttl
  | verifierBound
  | name
  | nameTaken
  | unknownLink
  | unknownOrExpired
  | tokenHash
  | record
  | recordName
  | expiresAt
  | executionKey
  | hashConflict
deriving DecidableEq

def TriggerLinkError.status : TriggerLinkError → ℕ
  | .nameTaken => 409
  | .unknownLink | .unknownOrExpired => 404
  | _ => 400

def isWordChar (c : ℕ) : Bool :=
  (48 ≤ c && c ≤ 57) || (65 ≤ c && c ≤ 90) || c == 95 || (97 ≤ c && c ≤ 122)

/-- `_validate_name` -/
def nameValid (name : Text) : Bool :=
  match name with
  | [] => false
  | first :: _ =>
    first != 45 && decide (name.length ≤ 64) &&
      name.all (fun c => isWordChar c || c == 45 || c == 46) && name.any isWordChar

/-- `_HEX64` -/
def hashValid (hash : Text) : Bool :=
  hash.length == 64 && hash.all fun c => (48 ≤ c && c ≤ 57) || (97 ≤ c && c ≤ 102)

/-- `_validate_ttl` -/
def validateTtl : Option ℤ → Except TriggerLinkError ℕ
  | none => .ok 0
  | some ttl =>
    if ttl ≤ 0 then .error .ttl
    else if 10 ^ 10 < ttl then .error .ttl
    else .ok ttl.toNat

/-- `_remaining_ttl` at a time of the clock; `none` is `_EXPIRED`. -/
def remainingTtl (clock : ℤ) : Option Stamp → Except TriggerLinkError (Option ℕ)
  | none => .ok (some 0)
  | some .unparseable | some .naive => .error .expiresAt
  | some (.at deadline) =>
    if deadline - clock ≤ 0 then .ok none
    else .ok (some (max 1 ((deadline - clock + 999999) / 1000000).toNat))

/-- The validators of `_TriggerRecord`. -/
def TriggerRecord.valid (record : TriggerRecord) : Bool :=
  !record.executionKey.isEmpty && !record.executionKeyFingerprint.isEmpty &&
    !record.topic.isEmpty && record.createdAt != .unparseable

/-- The parameters of `create_trigger_link`. -/
structure CreateParams where
  topic : Text
  name : Option Text
  ttlSeconds : Option ℤ
  toolKwargs : Option (List (Text × Value))
  executionKey : Text
  executionKeyFingerprint : Text
  requireApiKey : Bool
  createdBy : Option Text

/-- The calls; `body` is what the fields of `_TriggerRecord` make of a record, if it has them. -/
inductive LinkRequest where
  | create (params : CreateParams)
  | revoke (name : Text)
  | restore (name hash : Text) (body : Option TriggerRecord)
  | tombstone (hash : Text)
  | resolve (token : Text)

/-- What a step of a call finds: whether the topic has a verifier, whether the key is usable, the
time of the clock, and the random name and token. -/
structure Found where
  verified : Bool := false
  usable : Bool := true
  clock : ℤ := 0
  name : Text := []
  token : Text := []

/-- A create that has passed its checks. -/
structure Draft where
  params : CreateParams
  ttl : ℕ
  clock : ℤ

/-- The record that a create writes under a name. -/
def Draft.record (draft : Draft) (name : Text) : TriggerRecord where
  name := name
  topic := draft.params.topic
  executionKey := draft.params.executionKey
  executionKeyFingerprint := draft.params.executionKeyFingerprint
  requireApiKey := draft.params.requireApiKey
  toolKwargs := draft.params.toolKwargs
  createdBy := draft.params.createdBy
  createdAt := .at draft.clock
  expiresAt := if 0 < draft.ttl then some (.at (draft.clock + 1000000 * draft.ttl)) else none

/-- A restore that has passed its checks. -/
structure Restored where
  name : Text
  hash : Text
  record : TriggerRecord
  ttl : ℕ

def CreateParams.check (params : CreateParams) (found : Found) : Except TriggerLinkError Draft :=
  if params.topic.isEmpty then .error .emptyTopic
  else if params.executionKey.isEmpty then .error .emptyExecutionKey
  else
    match validateTtl params.ttlSeconds with
    | .error e => .error e
    | .ok ttl =>
      if found.verified then .error .verifierBound
      else if params.name.all nameValid then .ok ⟨params, ttl, found.clock⟩
      else .error .name

/-- The checks of `restore_trigger_link`; `none` is `skipped_expired`. -/
def checkRestore (name hash : Text) (body : Option TriggerRecord) (clock : ℤ) :
    Except TriggerLinkError (Option Restored) :=
  if nameValid name then
    if hashValid hash then
      match body with
      | none => .error .record
      | some record =>
        if record.valid then
          if record.name = name then
            match remainingTtl clock record.expiresAt with
            | .error e => .error e
            | .ok ttl => .ok (ttl.map fun ttl => ⟨name, hash, record, ttl⟩)
          else .error .recordName
        else .error .record
    else .error .tokenHash
  else .error .name

/-- What a resolved token dispatches. -/
structure ResolvedTrigger where
  topic : Text
  executionKey : Text
  executionKeyFingerprint : Text
  requireApiKey : Bool
  toolKwargs : Option (List (Text × Value))

/-- `MGET` of the record and the tombstone. -/
def LinkStore.lookup (s : LinkStore) (hash : Text) : Except TriggerLinkError TriggerRecord :=
  if s.tombs hash then .error .unknownOrExpired
  else
    match s.records hash with
    | none => .error .unknownOrExpired
    | some kept => .ok kept.value

/-- `resolve_trigger_token`, on the store at its read and the verifiers at its check. -/
def resolveTriggerToken (hashApiKey : Text → Text) (s : LinkStore) (verifierBound : Text → Bool)
    (token : Text) : Except TriggerLinkError ResolvedTrigger :=
  match s.lookup (hashApiKey token) with
  | .error e => .error e
  | .ok record =>
    if verifierBound record.topic then .error .unknownOrExpired
    else .ok ⟨record.topic, record.executionKey, record.executionKeyFingerprint,
      record.requireApiKey, record.toolKwargs⟩

/-- Where a call stands. A create has so many attempts left. -/
inductive LinkCall where
  | asked (request : LinkRequest)
  | creating (draft : Draft) (attempts : ℕ)
  | restoring (link : Restored)
  | resolving (record : TriggerRecord)

structure LinkState where
  store : LinkStore
  calls : ℕ → Option LinkCall

inductive LinkAct where
  | start (i : ℕ) (request : LinkRequest)
  | take (i : ℕ) (found : Found)
  | fail (i : ℕ)
  | tick (now : ℤ)

namespace LinkState

variable (hashApiKey : Text → Text)

/-- A call goes on with a store. -/
def goOn (s : LinkState) (i : ℕ) (store : LinkStore) (call : Option LinkCall) : LinkState where
  store := store
  calls := Function.update s.calls i call

/-- The first step of a call. -/
def begin (s : LinkState) (i : ℕ) (found : Found) : LinkRequest → LinkState
  | .create params =>
    match params.check found with
    | .error _ => s.goOn i s.store none
    | .ok draft => s.goOn i s.store (some (.creating draft 2))
  | .revoke name =>
    match s.store.revokeScript name with
    | none => s.goOn i s.store none
    | some (_, store) => s.goOn i store none
  | .restore name hash body =>
    match checkRestore name hash body found.clock with
    | .error _ | .ok none => s.goOn i s.store none
    | .ok (some link) =>
      if s.store.tombs hash then s.goOn i s.store none
      else s.goOn i s.store (some (.restoring link))
  | .tombstone hash =>
    if hashValid hash then s.goOn i (s.store.tombstoneScript hash).2 none
    else s.goOn i s.store none
  | .resolve token =>
    match s.store.lookup (hashApiKey token) with
    | .error _ => s.goOn i s.store none
    | .ok record => s.goOn i s.store (some (.resolving record))

/-- An attempt of a create; only a generated name has a second one. -/
def attempt (s : LinkState) (i : ℕ) (found : Found) (draft : Draft) : ℕ → LinkState
  | 0 => s.goOn i s.store none
  | attempts + 1 =>
    let name := draft.params.name.getD found.name
    match s.store.createScript name (hashApiKey found.token) (draft.record name) draft.ttl with
    | some store => s.goOn i store none
    | none =>
      if draft.params.name.isSome then s.goOn i s.store none
      else s.goOn i s.store (some (.creating draft attempts))

def resume (s : LinkState) (i : ℕ) (found : Found) : LinkCall → LinkState
  | .asked request => s.begin hashApiKey i found request
  | .creating draft attempts => s.attempt hashApiKey i found draft attempts
  | .restoring link =>
    if found.usable then
      s.goOn i (s.store.restoreScript link.name link.hash link.record link.ttl).2 none
    else s.goOn i s.store none
  | .resolving _ => s.goOn i s.store none

def next (s : LinkState) : LinkAct → Option LinkState
  | .start i request =>
    match s.calls i with
    | none => some (s.goOn i s.store (some (.asked request)))
    | some _ => none
  | .take i found => (s.calls i).map (s.resume hashApiKey i found)
  | .fail i => some (s.goOn i s.store none)
  | .tick now => some { s with store := s.store.tick now }

/-- The token that a create draws is not known to the store. -/
def Fresh (s : LinkState) : LinkAct → Prop
  | .take i found => ∀ draft attempts, s.calls i = some (.creating draft attempts) →
    s.store.records (hashApiKey found.token) = none ∧
      s.store.tombs (hashApiKey found.token) = false
  | _ => True

/-- The hash that a revocation or the import of a tombstone kills, as it returns. -/
def killed (s : LinkState) : LinkAct → Option Text
  | .take i _ =>
    match s.calls i with
    | some (.asked (.revoke name)) => (s.store.revokeScript name).map Prod.fst
    | some (.asked (.tombstone hash)) =>
      if hashValid hash && (s.store.tombstoneScript hash).1.isSome then some hash else none
    | _ => none
  | _ => none

end LinkState

/-- The runs from a store without keys, in which the tokens drawn are fresh. -/
def linkSystem (hashApiKey : Text → Text) : System LinkState LinkAct where
  init s := (∀ i, s.calls i = none) ∧ (∀ name, s.store.names name = none) ∧
    (∀ hash, s.store.records hash = none) ∧ ∀ hash, s.store.tombs hash = false
  step s a s' := s.Fresh hashApiKey a ∧ s.next hashApiKey a = some s'

end TaiSkeleton.Hooks
