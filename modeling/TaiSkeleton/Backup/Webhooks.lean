import TaiSkeleton.Hooks.LinkRestore

/-!
# The webhooks section of a backup

`_import_webhooks` restores the verifier bindings of the topics, the hooks, the tombstones and the
trigger links, in this order. An entry that is refused is reported; an exception that its loop does
not catch ends the import with what it has written.
-/

namespace TaiSkeleton.Backup.Webhooks

open Lib Hooks

variable {η β : Type}

/-- `HookParams` and `TopicVerifierBinding`: what `model_validate` makes of a value, the fields that
the import reads, and whether the jq compiles and `model_dump_json` does not raise. -/
structure Models (η β : Type) where
  hookOf : Value → Option η
  name : η → Text
  topic : η → Text
  executionKey : η → Text
  executionKeyFingerprint : η → Text
  jqFieldsCompile : η → Bool
  hookDumps : η → Bool
  bindingOf : Value → Option β
  bindingDumps : β → Bool

/-! ## The hooks manager -/

/-- The hooks by topic and name, the topics of the names, the bindings, and the trigger links. -/
structure Stores (η β : Type) where
  hooks : List ((Text × Text) × η)
  nameTopicMap : List (Text × Text)
  verifiers : Text → Option β
  links : LinkStore

section Manager

variable (M : Models η β) (backend : Backend)

/-- `register`; `none` is a `ValueError` of the jq or of an encoding. -/
def register (s : Stores η β) (params : η) : Option (Stores η β) :=
  let encoded := encodes (M.topic params) && encodes (M.name params) && M.hookDumps params
  if M.jqFieldsCompile params && (backend == .inMemory || encoded) then
    let moved :=
      match s.nameTopicMap.lookup (M.name params) with
      | none => s.hooks
      | some prevTopic =>
        if prevTopic = M.topic params then s.hooks else dictPop s.hooks (prevTopic, M.name params)
    some { s with
      hooks := dictPut moved (M.topic params, M.name params) params
      nameTopicMap := dictPut s.nameTopicMap (M.name params) (M.topic params) }
  else none

/-- The name is in what `list_hooks` returns. -/
def isListed (s : Stores η β) (name : Text) : Bool :=
  match backend with
  | .redis => (s.nameTopicMap.lookup name).any fun topic => (s.hooks.lookup (topic, name)).isSome
  | .inMemory => s.hooks.any fun entry => entry.1.2 == name

inductive BindFailure where
  /-- A `ValidationError`. -/
  | invalid
  /-- An error of an encoding. -/
  | unencodable
deriving DecidableEq

/-- `set_topic_verifier` -/
def setTopicVerifier (s : Stores η β) (topic : Text) (binding : Value) :
    Except BindFailure (Stores η β) :=
  match M.bindingOf binding with
  | none => .error .invalid
  | some model =>
    if backend == .inMemory || encodes topic && M.bindingDumps model then
      .ok { s with verifiers := Function.update s.verifiers topic (some model) }
    else .error .unencodable

end Manager

/-! ## The report -/

/-- The errors of the report. -/
inductive Refusal where
  | emptyTopic (topic : Text)
  | binding (topic : Text)
  | hookInvalid (name : Option Value)
  | hookUnlocked (name : Option Value) (topic : Text)
  | hookKey (name : Option Value)
  | hookRegister (name : Option Value)
  | tombstone (hash : Value) (why : LinkRefusal)
  | link (name : Option Value) (why : LinkRefusal)

/-- What becomes of an entry. -/
inductive Outcome where
  | created
  | updated
  | skipped (error : Option Refusal)
  /-- A tombstone that is restored, which no counter counts. -/
  | buried

namespace Outcome

def isCreated : Outcome → Bool
  | .created => true
  | _ => false

def isUpdated : Outcome → Bool
  | .updated => true
  | _ => false

def isSkipped : Outcome → Bool
  | .skipped _ => true
  | _ => false

def isBuried : Outcome → Bool
  | .buried => true
  | _ => false

def error? : Outcome → Option Refusal
  | .skipped error => error
  | _ => none

end Outcome

/-- `_SectionReport` -/
structure SectionReport where
  created : ℕ
  updated : ℕ
  skipped : ℕ
  errors : List Refusal

namespace SectionReport

/-- `_empty_report` -/
def empty : SectionReport := ⟨0, 0, 0, []⟩

def add (report : SectionReport) : Outcome → SectionReport
  | .created => { report with created := report.created + 1 }
  | .updated => { report with updated := report.updated + 1 }
  | .skipped none => { report with skipped := report.skipped + 1 }
  | .skipped (some error) =>
    { report with skipped := report.skipped + 1, errors := report.errors ++ [error] }
  | .buried => report

end SectionReport

/-! ## The loops -/

/-- Where the import stands: the stores, and the topics whose binding has failed. -/
structure Restore (η β : Type) where
  stores : Stores η β
  unlockedTopics : List Text

/-- How a round of a loop ends. -/
inductive Round (η β : Type) where
  | settled (outcome : Outcome) (s : Restore η β)
  | raised (stores : Stores η β)

structure Progress (η β : Type) where
  restore : Restore η β
  report : SectionReport

/-- A loop, up to an exception that it does not catch. -/
def restoreEach {α : Type} (round : Restore η β → α → Round η β) (p : Progress η β)
    (entries : List α) : Except (Stores η β) (Progress η β) :=
  entries.foldlM (fun p entry =>
    match round p.restore entry with
    | .settled outcome restore => .ok ⟨restore, p.report.add outcome⟩
    | .raised stores => .error stores) p

/-- The counter of an entry that was or was not there before. -/
def replaced (existed : Bool) : Outcome := if existed then .updated else .created

section Rounds

variable (M : Models η β) (P : Parsing) (backend : Backend)
  (assertUsable : Text → Text → KeyVerdict) (clock : ℤ)

/-- A round over `topic_verifiers`. -/
def verifierRound (existing : Text → Bool) (s : Restore η β) (entry : Text × Value) : Round η β :=
  let (topic, binding) := entry
  if topic = [] then .settled (.skipped (some (.emptyTopic topic))) s
  else
    match setTopicVerifier M backend s.stores topic binding with
    | .error .invalid =>
      .settled (.skipped (some (.binding topic)))
        { s with unlockedTopics := topic :: s.unlockedTopics }
    | .error .unencodable => .raised s.stores
    | .ok stores => .settled (replaced (existing topic)) { s with stores }

/-- A round of `_restore_hooks`. -/
def hookRound (existing : Text → Bool) (s : Restore η β) (item : Value) : Round η β :=
  let name := item.get (text "name")
  match M.hookOf item with
  | none => .settled (.skipped (some (.hookInvalid name))) s
  | some params =>
    if M.topic params ∈ s.unlockedTopics then
      .settled (.skipped (some (.hookUnlocked name (M.topic params)))) s
    else
      match assertUsable (M.executionKey params) (M.executionKeyFingerprint params) with
      | .refused => .settled (.skipped (some (.hookKey name))) s
      | .raised => .raised s.stores
      | .usable =>
        match register M backend s.stores params with
        | none => .settled (.skipped (some (.hookRegister name))) s
        | some stores => .settled (replaced (existing (M.name params))) { s with stores }

/-- A round over `tombstones`. -/
def tombstoneRound (s : Restore η β) (hash : Value) : Round η β :=
  let (result, links) := restoreTombstone backend s.stores.links hash
  let stores := { s.stores with links }
  match result with
  | .error (.refused why) => .settled (.skipped (some (.tombstone hash why))) { s with stores }
  | .error .raised => .raised stores
  | .ok () => .settled .buried { s with stores }

/-- The counter of what `restore_trigger_link` returns. -/
def linkOutcome : LinkOutcome → Outcome
  | .created => .created
  | .updated => .updated
  | .skippedTombstoned | .skippedExpired => .skipped none

/-- `topic in unlocked_topics`; `none` is the `TypeError` of a topic that has no hash. -/
def isUnlocked (unlockedTopics : List Text) : Option Value → Option Bool
  | none => some false
  | some (.str topic) => some (decide (topic ∈ unlockedTopics))
  | some topic => if topic.hashable then some false else none

/-- What the body of the `try` does with an entry of `trigger_links`. -/
def restoreLinkItem (s : Restore η β) (item : Value) :
    Except LinkFailure (LinkOutcome × LinkStore) :=
  match item with
  | .dict fields =>
    match (Value.dict fields).get (text "record") with
    | none => .error (.refused (.missingKey (text "record")))
    | some record =>
      let topic := record.get (text "topic")
      match isUnlocked s.unlockedTopics topic with
      | none => .error .raised
      | some true => .error (.refused (.topicUnlocked ((topic.bind Value.asText).getD [])))
      | some false =>
        match (Value.dict fields).get (text "name"),
          (Value.dict fields).get (text "token_hash") with
        | none, _ => .error (.refused (.missingKey (text "name")))
        | some _, none => .error (.refused (.missingKey (text "token_hash")))
        | some name, some hash =>
          restoreTriggerLink P backend assertUsable clock s.stores.links name hash record
  | _ => .error (.refused .entryType)

/-- A round over `trigger_links`. -/
def linkRound (s : Restore η β) (item : Value) : Round η β :=
  match restoreLinkItem P backend assertUsable clock s item with
  | .error (.refused why) => .settled (.skipped (some (.link (item.get (text "name")) why))) s
  | .error .raised => .raised s.stores
  | .ok (outcome, links) =>
    .settled (linkOutcome outcome) { s with stores := { s.stores with links } }

/-- `_restore_hooks` -/
def restoreHooks (p : Progress η β) (hooks : List Value) : Except (Stores η β) (Progress η β) :=
  restoreEach (hookRound M backend assertUsable (isListed backend p.restore.stores)) p hooks

end Rounds

/-! ## The envelope -/

structure Envelope where
  hooks : List Value
  topicVerifiers : List (Text × Value)
  triggerLinks : List Value
  tombstones : List Value
  /-- A `dict` has each topic once. -/
  topics_nodup : (topicVerifiers.map Prod.fst).Nodup

/-- A key of the envelope that has to hold a list. -/
def listAt (payload : Value) (key : String) : Except String (List Value) :=
  match payload.get (text key) with
  | none => .error ("webhooks envelope is missing the required '" ++ key ++ "' key")
  | some (.list items) => .ok items
  | some _ => .error ("webhooks envelope '" ++ key ++ "' must be a list")

/-- The checks of the shape of a payload that is no list. -/
def envelopeOf (payload : Value) : Except String Envelope := do
  if payload.asDict.isNone then
    .error "webhooks section payload must be a list (old shape) or an envelope dict"
  let hooks ← listAt payload "hooks"
  let triggerLinks ← listAt payload "trigger_links"
  let tombstones ← listAt payload "tombstones"
  match payload.get (text "topic_verifiers") with
  | none => .error "webhooks envelope is missing the required 'topic_verifiers' key"
  | some (.dict bindings) =>
    return ⟨hooks, Value.entries bindings, triggerLinks, tombstones, Value.nodup_entries bindings⟩
  | some _ => .error "webhooks envelope 'topic_verifiers' must be a mapping of topic to binding"

/-- The name and hash of an entry where both are strings. -/
def boundPair (item : Value) : Option (Text × Text) :=
  match item.get (text "name"), item.get (text "token_hash") with
  | some (.str name), some (.str hash) => some (name, hash)
  | _, _ => none

/-- The first loop of `_reject_duplicate_hash_binding`; `none` where it raises. -/
def hashToName (triggerLinks : List Value) : Option (List (Text × Text)) :=
  (triggerLinks.filterMap boundPair).foldlM (fun bound (name, hash) =>
    match bound.lookup hash with
    | none => some (dictPut bound hash name)
    | some prior => if prior = name then some (dictPut bound hash name) else none) []

/-- `_reject_duplicate_hash_binding` returns, with the names that the store binds. -/
def bindsEachHashOnce (triggerLinks : List Value) (liveByName : List (Text × Text)) : Bool :=
  match hashToName triggerLinks with
  | none => false
  | some bound =>
    let liveByHash := liveByName.foldl (fun live (name, hash) => dictPut live hash name) []
    bound.all fun (hash, name) => (liveByHash.lookup hash).all (· == name)

section Import

variable (M : Models η β) (P : Parsing) (backend : Backend)
  (assertUsable : Text → Text → KeyVerdict) (clock : ℤ)

/-- The four loops. -/
def restoreEnvelope (s : Stores η β) (e : Envelope) : Except (Stores η β) (Progress η β) := do
  let existing := fun topic => (s.verifiers topic).isSome
  let p ← restoreEach (verifierRound M backend existing) ⟨⟨s, []⟩, .empty⟩ e.topicVerifiers
  let p ← restoreHooks M backend assertUsable p e.hooks
  let p ← restoreEach (tombstoneRound backend) p e.tombstones
  restoreEach (linkRound P backend assertUsable clock) p e.triggerLinks

/-- `_import_webhooks`, with what `bound_hashes_by_name` answers: the stores and the report, or the
stores that an exception leaves. -/
def importWebhooks (liveByName : List (Text × Text)) (s : Stores η β) (payload : Value) :
    Except (Stores η β) (Stores η β × SectionReport) :=
  match payload with
  | .list hooks =>
    (restoreHooks M backend assertUsable ⟨⟨s, []⟩, .empty⟩ hooks).map fun p =>
      (p.restore.stores, p.report)
  | payload =>
    match envelopeOf payload with
    | .error _ => .error s
    | .ok e =>
      if bindsEachHashOnce e.triggerLinks liveByName then
        (restoreEnvelope M P backend assertUsable clock s e).map fun p =>
          (p.restore.stores, p.report)
      else .error s

end Import

end TaiSkeleton.Backup.Webhooks
