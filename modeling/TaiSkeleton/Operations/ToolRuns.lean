import Mathlib.Data.Char
import Mathlib.Data.List.Lex
import Mathlib.Logic.Function.Basic
import TaiSkeleton.Lib.Expiring
import TaiSkeleton.Lib.SortedSet

/-!
# Background tool runs

The store of the tool runs and the two doors that read it. A run is indexed under the name of its
tool and, where its caller has an identity, under that identity and the name of the tool; a
restricted caller reads its own index.
-/

namespace TaiSkeleton.ToolRuns

open Lib

abbrev Text := List Char

/-- The `ToolRunsSettings` that the doors read. -/
structure Settings where
  recentRunsLimit : ℕ
  resultTtl : ℤ
  livenessTtl : ℤ

inductive Status where
  | running
  | succeeded
  | failed
  | lost
deriving DecidableEq

/-- The hash of a run. -/
structure Record where
  toolName : Text
  status : Status
  startedAt : ℤ
  userId : Option Text
  finishedAt : Option ℤ := none
  result : Option Text := none
  error : Option Text := none
deriving DecidableEq

/-- The fields of a terminal write. -/
structure Fields where
  status : Status
  finishedAt : ℤ
  result : Option Text := none
  error : Option Text := none

def Record.write (record : Record) (fields : Fields) : Record :=
  { record with
    status := fields.status
    finishedAt := some fields.finishedAt
    result := fields.result.or record.result
    error := fields.error.or record.error }

/-- The keys of the store: the hashes and the liveness keys under the ids of the runs, and the
indexes under their full keys. -/
structure Store where
  now : ℤ
  runs : Text → Option (Expiring Record)
  live : Text → Option (Expiring Unit)
  recent : Text → Option (Expiring (SortedSet Text))

/-- `recent_key`, after the prefix of the settings. -/
def recentKey (toolName : Text) : Option Text → Text
  | none => "recent:".toList ++ toolName
  | some userId => "recent:".toList ++ userId ++ ':' :: toolName

/-- The newest members of an index. -/
def newest (index : SortedSet Text) (limit : ℕ) : List Text :=
  (index.range fun a b => decide (a ≤ b)).reverse.take limit

namespace Store

variable (settings : Settings)

/-- `ZADD`, `ZREMRANGEBYRANK` and `EXPIRE` on an index. -/
def push (s : Store) (key runId : Text) (score : ℤ) : Store :=
  let index := ((Expiring.read s.now (s.recent key)).getD .empty).add runId score
  let kept := index.filter fun entry => (newest index settings.recentRunsLimit).contains entry.1
  { s with recent := Function.update s.recent key (some ⟨kept, s.now + settings.resultTtl⟩) }

/-- `create_run`, one `MULTI` block. -/
def createRun (s : Store) (runId toolName : Text) (startedAt score : ℤ) (userId : Option Text) :
    Store :=
  let record : Record := { toolName, status := .running, startedAt, userId }
  let s : Store := { s with
    runs := Function.update s.runs runId (some ⟨record, s.now + settings.resultTtl⟩)
    live := Function.update s.live runId (some ⟨(), s.now + settings.livenessTtl⟩) }
  let s := s.push settings (recentKey toolName none) runId score
  match userId with
  | none => s
  | some userId => s.push settings (recentKey toolName (some userId)) runId score

/-- `refresh_liveness` -/
def refreshLiveness (s : Store) (runId : Text) : Store :=
  { s with live := Function.update s.live runId (some ⟨(), s.now + settings.livenessTtl⟩) }

/-- The hash of a run, where it has not expired. -/
def run (s : Store) (runId : Text) : Option Record := Expiring.read s.now (s.runs runId)

def livenessPresent (s : Store) (runId : Text) : Bool :=
  (Expiring.read s.now (s.live runId)).isSome

/-- `mark_terminal_if_running`, where it writes. -/
def markTerminalIfRunning (s : Store) (runId : Text) (fields : Fields) : Option Store :=
  match s.run runId with
  | none => none
  | some record =>
    if record.status = .running then
      let written : Expiring Record := ⟨record.write fields, s.now + settings.resultTtl⟩
      some { s with runs := Function.update s.runs runId (some written) }
    else none

/-- `recent_run_ids` -/
def recentRunIds (s : Store) (toolName : Text) (userId : Option Text) : List Text :=
  newest ((Expiring.read s.now (s.recent (recentKey toolName userId))).getD .empty)
    settings.recentRunsLimit

/-- `prune_recent` -/
def pruneRecent (s : Store) (toolName runId : Text) (userId : Option Text) : Store :=
  let key := recentKey toolName userId
  let pruned := (s.recent key).map fun entry => ⟨entry.value.rem runId, entry.expiresAt⟩
  { s with recent := Function.update s.recent key pruned }

/-- `_reconcile_lost_with_liveness` -/
def reconcileLost (s : Store) (runId : Text) (record : Record) (livenessPresent : Bool)
    (clock : ℤ) : Store × Record :=
  if record.status ≠ .running ∨ livenessPresent then (s, record)
  else
    match s.markTerminalIfRunning settings runId { status := .lost, finishedAt := clock } with
    | some s => (s, { record with status := .lost, finishedAt := some clock })
    | none => (s, (s.run runId).getD record)

end Store

/-! ## Doors -/

/-- `_list_view` -/
structure ListView where
  runId : Text
  toolName : Text
  status : Status
  startedAt : ℤ
  finishedAt : Option ℤ
deriving DecidableEq

def listView (runId : Text) (record : Record) : ListView :=
  ⟨runId, record.toolName, record.status, record.startedAt, record.finishedAt⟩

/-- `_run_view` -/
structure RunView where
  runId : Text
  toolName : Text
  status : Status
  startedAt : ℤ
  finishedAt : Option ℤ
  result : Option Text
  error : Option Text
deriving DecidableEq

def runView (runId : Text) (record : Record) : RunView :=
  ⟨runId, record.toolName, record.status, record.startedAt, record.finishedAt, record.result,
    record.error⟩

inductive Reply where
  | listed (views : List ListView)
  | got (view : RunView)
  | forbidden
  | notFound
deriving DecidableEq

section

variable (settings : Settings)

/-- The first loop of `list_tool_runs`: the runs that are there; the others are pruned. -/
def collect (toolName : Text) (restricted : Option Text) : List Text → Store →
    Store × List (Text × Record)
  | [], s => (s, [])
  | runId :: runIds, s =>
    match s.run runId with
    | none => collect toolName restricted runIds (s.pruneRecent toolName runId restricted)
    | some record =>
      let rest := collect toolName restricted runIds s
      (rest.1, (runId, record) :: rest.2)

/-- The runs with their liveness, which is read for the running ones only. -/
def withLiveness (s : Store) (found : List (Text × Record)) : List (Text × Record × Bool) :=
  found.map fun run => (run.1, run.2, run.2.status ≠ .running || s.livenessPresent run.1)

/-- The second loop of `list_tool_runs`. -/
def reconcileAll (clock : ℤ) : List (Text × Record × Bool) → Store → Store × List ListView
  | [], s => (s, [])
  | (runId, record, livenessPresent) :: present, s =>
    let reconciled := s.reconcileLost settings runId record livenessPresent clock
    let rest := reconcileAll clock present reconciled.1
    (rest.1, listView runId reconciled.2 :: rest.2)

def listToolRuns (s : Store) (toolName : Text) (restricted : Option Text) (clock : ℤ) :
    Store × Reply :=
  let collected := collect toolName restricted (s.recentRunIds settings toolName restricted) s
  let reconciled :=
    reconcileAll settings clock (withLiveness collected.1 collected.2) collected.1
  (reconciled.1, .listed reconciled.2)

def getRun (s : Store) (runId : Text) (restricted : Option Text) (clock : ℤ) : Store × Reply :=
  match s.run runId with
  | none => (s, .notFound)
  | some record =>
    if restricted ≠ none ∧ record.userId ≠ restricted then (s, .forbidden)
    else
      let livenessPresent := record.status = .running && s.livenessPresent runId
      let reconciled := s.reconcileLost settings runId record livenessPresent clock
      (reconciled.1, .got (runView runId reconciled.2))

end

/-! ## Histories -/

/-- What happens to the store: time passes, a run is submitted, its supervisor writes or keeps it
alive, and a restricted caller reads. -/
inductive Event where
  | tick (seconds : ℕ)
  | submit (runId toolName : Text) (startedAt score : ℤ)
  | finish (runId : Text) (fields : Fields)
  | refresh (runId : Text)
  | list (toolName : Text) (clock : ℤ)
  | get (runId : Text) (clock : ℤ)

section

variable (settings : Settings)

/-- Run ids are random tokens: each is of no run, or of the run of one caller, who may have no
identity. -/
abbrev Submitter := Text → Option (Option Text)

/-- An event, whose reads are those of the restricted caller `u`. -/
def step (submitter : Submitter) (u : Text) (s : Store) : Event → Store × Option Reply
  | .tick seconds => ({ s with now := s.now + seconds }, none)
  | .submit runId toolName startedAt score =>
    (s.createRun settings runId toolName startedAt score (submitter runId).join, none)
  | .finish runId fields => ((s.markTerminalIfRunning settings runId fields).getD s, none)
  | .refresh runId => (s.refreshLiveness settings runId, none)
  | .list toolName clock =>
    let (s, reply) := listToolRuns settings s toolName (some u) clock
    (s, some reply)
  | .get runId clock =>
    let (s, reply) := getRun settings s runId (some u) clock
    (s, some reply)

/-- The reads of a history with their replies. -/
def replies (submitter : Submitter) (u : Text) : List Event → Store → List (Event × Reply)
  | [], _ => []
  | event :: events, s =>
    ((step settings submitter u s event).2.toList.map fun reply => (event, reply)) ++
      replies submitter u events (step settings submitter u s event).1

end

/-- The store before the first run. -/
def emptyStore : Store := ⟨0, fun _ => none, fun _ => none, fun _ => none⟩

end TaiSkeleton.ToolRuns
