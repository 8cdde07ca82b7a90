import TaiSkeleton.Lib.Run
import TaiSkeleton.Operations.ToolRuns

/-!
# The supervised runs

A worker counts its runs in flight. A submission reserves a slot, records its run and spawns the
supervisor, which runs the tool and writes the terminal record; the slot is given back by the
supervisor's callback, or by the submission that raises before it has spawned one. The readers of
the runs reconcile those that have lost their liveness.

What a submission does in front of its capacity check leaves no trace and is left out.
-/

namespace TaiSkeleton.ToolRuns

open Lib

/-! ## The worker -/

/-- How an await comes out, and whether its command took effect where it does not return. An
`Exception` is a failure; a `CancelledError` is none. -/
inductive Awaited where
  | returned
  | failed (took : Bool)
  | cancelled (took : Bool)
deriving DecidableEq

def Awaited.took : Awaited → Bool
  | .returned => true
  | .failed took | .cancelled took => took

/-- What `submit_run` records of a run. -/
structure Submission where
  toolName : Text
  startedAt : ℤ
  score : ℤ
  userId : Option Text
deriving DecidableEq

/-- How the tool of a run comes out. -/
inductive ToolOutcome where
  | returned (result : Text)
  | raised (error : Text)
  | cancelled
deriving DecidableEq

/-- The terminal fields that the supervisor writes. -/
def ToolOutcome.fields (finishedAt : ℤ) : ToolOutcome → Fields
  | .returned result => { status := .succeeded, finishedAt, result := some result }
  | .raised error => { status := .failed, finishedAt, error := some error }
  | .cancelled =>
    { status := .failed, finishedAt
      error := some "server shutdown before the tool-run completed".toList }

/-- Where a run is: its submission enters the client, records the run and leaves the client; its
supervisor enters a client of its own, runs the tool and writes the terminal record; the supervisor
is done and its callback is to come. -/
inductive Stage where
  | idle
  | connecting (submission : Submission)
  | creating (submission : Submission)
  | releasing
  | starting
  | working
  | writing (fields : Fields)
  | finished
  | over

/-- The submission has reserved its slot and not spawned the supervisor. -/
def Stage.isSubmitting : Stage → Bool
  | .connecting _ | .creating _ | .releasing => true
  | _ => false

/-- The supervisor is in `_SUPERVISORS`. -/
def Stage.isSupervised : Stage → Bool
  | .starting | .working | .writing _ | .finished => true
  | _ => false

/-- Where a call of `list_tool_runs` or `get_run` is, between its commands. -/
inductive Reader where
  | idle
  | listing (toolName : Text) (user : Option Text)
  | fetching (toolName : Text) (user : Option Text) (runIds : List Text)
  | pruning (toolName : Text) (user : Option Text) (gone : List Text)
      (found : List (Text × Record))
  | getting (runId : Text) (restricted : Option Text)
  | checking (runId : Text) (record : Record)
  | reconciling (present : List (Text × Record × Bool))
  | over

/-- A worker on the store; `active` is `_ACTIVE_RUNS`, and `submitted` lists the runs that have
reserved a slot. -/
structure Worker where
  store : Store
  active : ℤ
  runs : Text → Stage
  submitted : List Text
  readers : ℕ → Reader

inductive Act where
  | tick (seconds : ℕ)
  | submit (runId : Text) (submission : Submission)
  | connect (runId : Text) (awaited : Awaited)
  | create (runId : Text) (awaited : Awaited)
  | release (runId : Text) (awaited : Awaited)
  | start (runId : Text) (awaited : Awaited)
  | refresh (runId : Text)
  | tool (runId : Text) (outcome : ToolOutcome) (clock : ℤ)
  | write (runId : Text) (awaited : Awaited)
  | callback (runId : Text)
  | list (n : ℕ) (toolName : Text) (user : Option Text)
  | get (n : ℕ) (runId : Text) (restricted : Option Text)
  | read (n : ℕ) (clock : ℤ)
  | quit (n : ℕ)
deriving DecidableEq

namespace Worker

def goTo (s : Worker) (runId : Text) (stage : Stage) : Worker :=
  { s with runs := Function.update s.runs runId stage }

def readOn (s : Worker) (n : ℕ) (reader : Reader) : Worker :=
  { s with readers := Function.update s.readers n reader }

/-- A submission after one of its awaits: only an `Exception` gives the slot back. -/
def afterAwait (s : Worker) (runId : Text) (stage : Stage) : Awaited → Worker
  | .returned => s.goTo runId stage
  | .failed _ => { s.goTo runId .over with active := s.active - 1 }
  | .cancelled _ => s.goTo runId .over

/-- The next command of a reader. -/
def readNext (settings : Settings) (s : Worker) (n : ℕ) (clock : ℤ) : Option Worker :=
  match s.readers n with
  | .idle | .over => none
  | .listing toolName user =>
    some (s.readOn n (.fetching toolName user (s.store.recentRunIds settings toolName user)))
  | .fetching toolName user runIds =>
    let found := runIds.filterMap fun runId => (s.store.run runId).map (runId, ·)
    let gone := runIds.filter fun runId => (s.store.run runId).isNone
    some (s.readOn n (.pruning toolName user gone found))
  | .pruning toolName user (runId :: gone) found =>
    some { s.readOn n (.pruning toolName user gone found) with
      store := s.store.pruneRecent toolName runId user }
  | .pruning _ _ [] found => some (s.readOn n (.reconciling (withLiveness s.store found)))
  | .getting runId restricted =>
    match s.store.run runId with
    | none => some (s.readOn n .over)
    | some record =>
      if restricted ≠ none ∧ record.userId ≠ restricted ∨ record.status ≠ .running then
        some (s.readOn n .over)
      else some (s.readOn n (.checking runId record))
  | .checking runId record =>
    some (s.readOn n (.reconciling [(runId, record, s.store.livenessPresent runId)]))
  | .reconciling [] => some (s.readOn n .over)
  | .reconciling ((runId, record, livenessPresent) :: present) =>
    some { s.readOn n (.reconciling present) with
      store := (s.store.reconcileLost settings runId record livenessPresent clock).1 }

/-- The worker after a step, where there is such a step. -/
def next (settings : Settings) (maxConcurrentRuns : ℕ) (s : Worker) : Act → Option Worker
  | .tick seconds => some { s with store := { s.store with now := s.store.now + seconds } }
  | .submit runId submission =>
    -- at capacity the door raises, with nothing done
    if maxConcurrentRuns ≤ s.active then some s
    else
      match s.runs runId with
      | .idle =>
        some { s.goTo runId (.connecting submission) with
          active := s.active + 1
          submitted := runId :: s.submitted }
      | _ => none
  | .connect runId awaited =>
    match s.runs runId with
    | .connecting submission => some (s.afterAwait runId (.creating submission) awaited)
    | _ => none
  | .create runId awaited =>
    match s.runs runId with
    | .creating submission =>
      let created := s.store.createRun settings runId submission.toolName submission.startedAt
        submission.score submission.userId
      some (({ s with store := if awaited.took then created else s.store } : Worker).afterAwait
        runId .releasing awaited)
    | _ => none
  | .release runId awaited =>
    match s.runs runId with
    | .releasing => some (s.afterAwait runId .starting awaited)
    | _ => none
  | .start runId awaited =>
    match s.runs runId with
    | .starting => some (s.goTo runId (if awaited = .returned then .working else .finished))
    | _ => none
  | .refresh runId =>
    match s.runs runId with
    | .working | .writing _ => some { s with store := s.store.refreshLiveness settings runId }
    | _ => none
  | .tool runId outcome clock =>
    match s.runs runId with
    | .working => some (s.goTo runId (.writing (outcome.fields clock)))
    | _ => none
  | .write runId awaited =>
    match s.runs runId with
    | .writing fields =>
      let written := (s.store.markTerminalIfRunning settings runId fields).getD s.store
      some { s.goTo runId .finished with
        store := if awaited.took then written else s.store }
    | _ => none
  | .callback runId =>
    match s.runs runId with
    | .finished => some { s.goTo runId .over with active := s.active - 1 }
    | _ => none
  | .list n toolName user =>
    match s.readers n with
    | .idle => some (s.readOn n (.listing toolName user))
    | _ => none
  | .get n runId restricted =>
    match s.readers n with
    | .idle => some (s.readOn n (.getting runId restricted))
    | _ => none
  | .read n clock => s.readNext settings n clock
  | .quit n => some (s.readOn n .over)

def start : Worker where
  store := emptyStore
  active := 0
  runs _ := .idle
  submitted := []
  readers _ := .idle

end Worker

/-- Every interleaving of the submissions, the supervisors and the readers. -/
def toolRuns (settings : Settings) (maxConcurrentRuns : ℕ) : System Worker Act where
  init s := s = .start
  step s a s' := s.next settings maxConcurrentRuns a = some s'

end TaiSkeleton.ToolRuns
