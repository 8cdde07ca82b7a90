import TaiSkeleton.Lib.Dict
import TaiSkeleton.Lib.Except
import TaiSkeleton.Lib.Run

/-!
# The hook registry

The Redis manager keeps a hash of names to topics and a hash of hooks for each topic. A write is one
script; a listing reads the map first and then, command by command, the hook of each name. The
in-memory manager keeps the same two in dictionaries.
-/

namespace TaiSkeleton.Hooks.Registry

open Lib

variable {η : Type}

/-- What the managers use of a `HookParams`: its name and topic, its JSON, and whether the jq of its
fields compiles. -/
structure HookModel (η : Type) where
  name : η → String
  topic : η → String
  modelDumpJson : η → String
  modelValidateJson : String → Except String η
  validateJqFields : η → Except String Unit

/-- `HooksSettings` -/
structure HooksSettings where
  keyPrefix : String

def HooksSettings.getHookKey (settings : HooksSettings) (topic : String) : String :=
  settings.keyPrefix ++ ":topic:" ++ topic

def HooksSettings.nameTriggerMapKey (settings : HooksSettings) : String :=
  settings.keyPrefix ++ ":name_trigger_map"

/-- What a call answers. -/
inductive Answer (η : Type) where
  | raised (text : String)
  | flag (b : Bool)
  | hooks (found : String → Option η)

/-- A dictionary of hooks, or what its reading raised. -/
def Answer.ofHooks : Except String (List (String × η)) → Answer η
  | .error text => .raised text
  | .ok found => .hooks fun name => found.lookup name

/-! ## The Redis manager -/

/-- The hashes of a Redis, with the missing ones empty. -/
abbrev Redis := String → List (String × String)

namespace Redis

def hget (r : Redis) (key field : String) : Option String := (r key).lookup field

def hset (r : Redis) (key field value : String) : Redis := fun k =>
  if k = key then dictPut (r key) field value else r k

def hdel (r : Redis) (key field : String) : Redis := fun k =>
  if k = key then dictPop (r key) field else r k

end Redis

variable (settings : HooksSettings) (M : HookModel η)

/-- `_REGISTER_LUA` -/
def registerLua (r : Redis) (topic name hookJson : String) : Redis :=
  let moved :=
    match r.hget settings.nameTriggerMapKey name with
    | some prevTopic =>
      if prevTopic ≠ topic then r.hdel (settings.keyPrefix ++ ":topic:" ++ prevTopic) name else r
    | none => r
  (moved.hset (settings.keyPrefix ++ ":topic:" ++ topic) name hookJson).hset
    settings.nameTriggerMapKey name topic

/-- `_UNREGISTER_LUA` -/
def unregisterLua (r : Redis) (name : String) : Redis × Bool :=
  match r.hget settings.nameTriggerMapKey name with
  | none => (r, false)
  | some topic =>
    let key := settings.keyPrefix ++ ":topic:" ++ topic
    let removed := (r.hget key name).isSome
    let without := r.hdel key name
    let removedMap := (without.hget settings.nameTriggerMapKey name).isSome
    (without.hdel settings.nameTriggerMapKey name, removed || removedMap)

/-- A `list_hooks` call: the names whose hook it has yet to read, with the topics it read them at,
and what it has read. -/
structure Listing where
  pending : List (String × String)
  results : List (String × Option String) := []

namespace Listing

/-- The first command of the call. -/
def start (r : Redis) : Listing := { pending := r settings.nameTriggerMapKey }

/-- The next of its other commands. -/
def next (r : Redis) (l : Listing) : Option Listing :=
  match l.pending with
  | [] => none
  | (name, topic) :: pending =>
    some ⟨pending, l.results ++ [(name, r.hget (settings.getHookKey topic) name)]⟩

/-- What the call does with what it has read. -/
def outcome (l : Listing) : Except String (List (String × η)) :=
  collect (fun (name, hookJson) =>
    match hookJson with
    | none => .ok none
    | some json =>
      if json = "" then .ok none
      else (M.modelValidateJson json).map fun hook => some (name, hook)) l.results

/-- The rest of a call that nothing comes between. -/
def finish (r : Redis) (l : Listing) : Listing :=
  ⟨[], l.results ++ l.pending.map fun (name, topic) =>
    (name, r.hget (settings.getHookKey topic) name)⟩

end Listing

/-- `list_hooks_by_topic`; an event reads the hooks of its topic so. -/
def listHooksByTopic (r : Redis) (topic : String) : Except String (List (String × η)) :=
  collect (fun (name, hookJson) =>
    (M.modelValidateJson hookJson).map fun hook => some (name, hook))
    (r (settings.getHookKey topic))

/-- The calls of a manager. -/
inductive Op (η : Type) where
  | register (params : η)
  | unregister (name : String)
  | listHooks
  | listHooksByTopic (topic : String)

/-- A call of the Redis manager that nothing comes between. -/
def redisOp (r : Redis) : Op η → Redis × Answer η
  | .register params =>
    match M.validateJqFields params with
    | .error text => (r, .raised text)
    | .ok () =>
      (registerLua settings r (M.topic params) (M.name params) (M.modelDumpJson params), .flag true)
  | .unregister name =>
    let (r', removed) := unregisterLua settings r name
    (r', .flag removed)
  | .listHooks => (r, .ofHooks (((Listing.start settings r).finish settings r).outcome M))
  | .listHooksByTopic topic => (r, .ofHooks (listHooksByTopic settings M r topic))

/-! ## The in-memory manager -/

/-- `InMemoryHooksManager` -/
structure Memory (η : Type) where
  hooks : List (String × List (String × η)) := []
  nameTopicMap : List (String × String) := []

namespace Memory

/-- The entry of a name leaves its old topic's bucket. -/
def unfile (hooks : List (String × List (String × η))) (key name : String) :
    List (String × List (String × η)) :=
  match hooks.lookup key with
  | none => hooks
  | some bucket =>
    let rest := dictPop bucket name
    if rest.isEmpty then dictPop hooks key else dictPut hooks key rest

def register (m : Memory η) (params : η) : Memory η :=
  let key := settings.getHookKey (M.topic params)
  let hooks :=
    match m.nameTopicMap.lookup (M.name params) with
    | some prevTopic =>
      if prevTopic ≠ M.topic params then
        unfile m.hooks (settings.getHookKey prevTopic) (M.name params)
      else m.hooks
    | none => m.hooks
  { hooks := dictPut hooks key (dictPut ((hooks.lookup key).getD []) (M.name params) params)
    nameTopicMap := dictPut m.nameTopicMap (M.name params) (M.topic params) }

def unregister (m : Memory η) (name : String) : Memory η × Bool :=
  let nameTopicMap := dictPop m.nameTopicMap name
  match m.nameTopicMap.lookup name with
  | none => ({ m with nameTopicMap }, false)
  | some topic =>
    -- `if not topic` is an empty topic too.
    if topic = "" then ({ m with nameTopicMap }, false)
    else
      let key := settings.getHookKey topic
      match (m.hooks.lookup key).bind (·.lookup name) with
      | none => ({ m with nameTopicMap }, true)
      | some _ => ({ hooks := unfile m.hooks key name, nameTopicMap }, true)

def listHooks (m : Memory η) : List (String × η) :=
  m.hooks.foldl (fun all (_, bucket) => updated all bucket) []

def listHooksByTopic (m : Memory η) (topic : String) : List (String × η) :=
  (m.hooks.lookup (settings.getHookKey topic)).getD []

end Memory

/-- A call of the in-memory manager. -/
def memoryOp (m : Memory η) : Op η → Memory η × Answer η
  | .register params =>
    match M.validateJqFields params with
    | .error text => (m, .raised text)
    | .ok () => (m.register settings M params, .flag true)
  | .unregister name =>
    let (m', removed) := m.unregister settings name
    (m', .flag removed)
  | .listHooks => (m, .ofHooks (.ok m.listHooks))
  | .listHooksByTopic topic => (m, .ofHooks (.ok (m.listHooksByTopic settings topic)))

/-! ## Interleaved calls -/

/-- A `list_hooks` call on the way, with the names that have been registered all the while and those
that have been at some time of it. -/
structure Call where
  listing : Listing
  steady : String → Bool
  seen : String → Bool

/-- The Redis, and the listings begun on it. -/
structure State where
  redis : Redis := fun _ => []
  calls : List Call := []

/-- The scripts, and the commands of the listings. -/
inductive Act (η : Type) where
  | register (params : η)
  | unregister (name : String)
  | start
  | next (n : ℕ)

/-- A name of the map. -/
def isRegistered (r : Redis) (name : String) : Bool :=
  (r.hget settings.nameTriggerMapKey name).isSome

/-- A call that is not over sees what is registered. -/
def Call.watch (r : Redis) (call : Call) : Call :=
  if call.listing.pending.isEmpty then call
  else
    { call with
      steady := fun name => call.steady name && isRegistered settings r name
      seen := fun name => call.seen name || isRegistered settings r name }

def State.step (s : State) : Act η → Option State
  | .register params =>
    match M.validateJqFields params with
    | .error _ => none
    | .ok () =>
      let redis := registerLua settings s.redis (M.topic params) (M.name params)
        (M.modelDumpJson params)
      some ⟨redis, s.calls.map (Call.watch settings redis)⟩
  | .unregister name =>
    let redis := (unregisterLua settings s.redis name).1
    some ⟨redis, s.calls.map (Call.watch settings redis)⟩
  | .start =>
    let call :=
      ⟨Listing.start settings s.redis, isRegistered settings s.redis, isRegistered settings s.redis⟩
    some { s with calls := s.calls ++ [call] }
  | .next n => do
    let call ← s.calls[n]?
    let listing ← call.listing.next settings s.redis
    return { s with calls := s.calls.set n { call with listing } }

/-- The runs of the Redis manager, on an empty Redis at first. -/
def redisRuns : System State (Act η) where
  init s := s = {}
  step s a s' := s.step settings M a = some s'

end TaiSkeleton.Hooks.Registry
