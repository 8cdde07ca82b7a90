import TaiSkeleton.Lib.Dict
import TaiSkeleton.Lib.Except
import TaiSkeleton.Lib.Json
import TaiSkeleton.Lib.Run

/-!
# The fan-out of an event

An event checks the conditions of the hooks on its topic one after another, and then runs the hooks
that are left, each in a task of its own with a context of its own, under one bound on all the tasks
of the manager. What a render, jq, the bind of an identity and a tool answer is a parameter, hook by
hook.
-/

namespace TaiSkeleton.Hooks.FanOut

open Lib

variable {ν ι : Type}

/-- The members of a JSON object. -/
abbrev Members (ν : Type) := List (String × Json ν)

/-- What the fan-out reads of a `HookParams`. -/
structure Hook (ν : Type) where
  name : String
  condition : Option String := none
  conditionId : Option String := none
  conditionKwargs : Members ν := []
  expr : Option String := none
  exprId : Option String := none
  exprKwargs : Members ν := []
  tool : String
  toolKwargs : Option (Members ν) := none
  executionKey : String
  executionKeyFingerprint : String

/-- What a hook's run fails with. -/
inductive Failure where
  | permissionDenied (text : String)
  | notAMapping
  | raised (text : String)
deriving DecidableEq

/-- What the hooks are answered: `render_by_id_or_content`, `run_jq_first`, the identity that
`bind_execution_identity` binds, and the tool. -/
structure Answers (ν ι : Type) where
  render : Hook ν → Option String → Option String → Members ν → Except Failure String
  runJqFirst : Hook ν → String → Json ν → Except Failure (Json ν)
  identity : Hook ν → String → String → Except Failure ι
  runTool : Hook ν → String → Members ν → Except Failure Unit

/-- An event: the hooks on its topic, its payload and the arguments of its link. -/
structure Event (ν : Type) where
  hooks : List (Hook ν)
  payload : Members ν
  toolKwargsOverride : Option (Members ν)

/-- `bool` of a JSON value. -/
def isTrue [Zero ν] [DecidableEq ν] : Json ν → Bool
  | .null => false
  | .bool b => b
  | .num n => n ≠ 0
  | .str s => s ≠ ""
  | .arr elements => !elements.isEmpty
  | .obj members => !members.isEmpty

/-! ## A hook by itself -/

section

variable (A : Answers ν ι) (event : Event ν) (hook : Hook ν)

/-- `_check_condition` -/
def checkCondition [Zero ν] [DecidableEq ν] : Except Failure Bool := do
  let rawCondition ← A.render hook hook.condition hook.conditionId hook.conditionKwargs
  if rawCondition = "" then return true
  else
    let result ← A.runJqFirst hook rawCondition (.obj event.payload)
    return isTrue result

/-- The expression of a hook, rendered. -/
def renderedExpr : Except Failure String :=
  A.render hook hook.expr hook.exprId hook.exprKwargs

/-- What the rendered expression makes of the payload. -/
def eventInput (rendered : String) : Except Failure (Json ν) :=
  if rendered = "" then .ok (.obj []) else A.runJqFirst hook rendered (.obj event.payload)

/-- The merge of the tool input; only a mapping can be unpacked into it. -/
def toolInput : Json ν → Except Failure (Members ν)
  | .obj input => .ok (updated (updated input (event.toolKwargsOverride.getD []))
      (hook.toolKwargs.getD []))
  | _ => .error .notAMapping

/-- The denial of a hook that binds no key. -/
def unbound : Failure :=
  .permissionDenied ("hook " ++ hook.name ++ " binds no execution key; refusing to fire")

/-- The tool input of a hook. -/
def ownInput : Except Failure (Members ν) := do
  ensure (hook.executionKey != "") (unbound hook)
  let rendered ← renderedExpr A hook
  let input ← eventInput A event hook rendered
  toolInput event hook input

/-- The identity that a hook runs under. -/
def ownIdentity : Except Failure ι :=
  A.identity hook hook.executionKey hook.executionKeyFingerprint

/-- A call of a tool: for which hook, with what input, under what identity. -/
structure Call (ν ι : Type) where
  hook : Hook ν
  input : Members ν
  identity : Option ι

/-- The call that a hook makes, where it gets as far. -/
def ownCall : Option (Call ν ι) :=
  match ownInput A event hook, ownIdentity A hook with
  | .ok input, .ok identity => some ⟨hook, input, some identity⟩
  | _, _ => none

/-- What the run of a hook comes to. -/
def ownResult : Except Failure Unit := do
  let input ← ownInput A event hook
  let _ ← ownIdentity A hook
  A.runTool hook hook.tool input

end

/-! ## The tasks -/

/-- Where the run of a hook is. -/
inductive Phase (ν : Type) where
  | queued
  | entered
  | rendering
  | evaluating (rendered : String)
  | binding (input : Members ν)
  | bound (input : Members ν)
  | calling (input : Members ν)
  | done (result : Except Failure Unit)

/-- A task of the fan-out, with the execution identity of its context. -/
structure Task (ν ι : Type) where
  hook : Hook ν
  phase : Phase ν := .queued
  identity : Option ι := none

/-- A task holds a permit from when it enters until it is done. -/
def Phase.holds : Phase ν → Bool
  | queued => false
  | done _ => false
  | _ => true

variable (A : Answers ν ι) (event : Event ν)

/-- A step of a task that holds a permit: the task, and the call it makes. -/
def Task.advance (task : Task ν ι) : Option (Task ν ι × Option (Call ν ι)) :=
  match task.phase with
  | .queued => none
  | .entered =>
    if task.hook.executionKey = "" then
      some ({ task with phase := .done (.error (unbound task.hook)) }, none)
    else some ({ task with phase := .rendering }, none)
  | .rendering =>
    match renderedExpr A task.hook with
    | .error e => some ({ task with phase := .done (.error e) }, none)
    | .ok rendered => some ({ task with phase := .evaluating rendered }, none)
  | .evaluating rendered =>
    match eventInput A event task.hook rendered >>= toolInput event task.hook with
    | .error e => some ({ task with phase := .done (.error e) }, none)
    | .ok input => some ({ task with phase := .binding input }, none)
  | .binding input =>
    match ownIdentity A task.hook with
    | .error e => some ({ task with phase := .done (.error e) }, none)
    | .ok identity => some ({ task with phase := .bound input, identity := some identity }, none)
  | .bound input =>
    -- The dispatch reads the identity of the context it runs in.
    some ({ task with phase := .calling input }, some ⟨task.hook, input, task.identity⟩)
  | .calling input =>
    some ({ task with phase := .done (A.runTool task.hook task.hook.tool input), identity := none },
      none)
  | .done _ => none

/-! ## The event -/

/-- Where the event is: at a condition, at its tasks, or over. -/
inductive Stage (ν : Type) where
  | checking (valid rest : List (Hook ν))
  | running
  | ended
  | raised (e : Failure)

/-- The event, its tasks, the calls made for it, and the permits that are free and that other events
hold. -/
structure State (ν ι : Type) where
  stage : Stage ν
  tasks : List (Task ν ι) := []
  calls : List (Call ν ι) := []
  free : ℕ
  others : ℕ

/-- The event takes a step, or another event takes a permit or gives one back. -/
inductive Act where
  | check
  | enter (n : ℕ)
  | advance (n : ℕ)
  | finish
  | take
  | give

def Phase.isDone : Phase ν → Bool
  | done _ => true
  | _ => false

variable [Zero ν] [DecidableEq ν]

def State.step (s : State ν ι) : Act → Option (State ν ι)
  | .check =>
    match s.stage with
    | .checking valid [] =>
      some { s with stage := .running, tasks := valid.map fun hook => { hook } }
    | .checking valid (hook :: rest) =>
      match checkCondition A event hook with
      | .error e => some { s with stage := .raised e }
      | .ok true => some { s with stage := .checking (valid ++ [hook]) rest }
      | .ok false => some { s with stage := .checking valid rest }
    | _ => none
  | .enter n =>
    match s.stage, s.tasks[n]?, s.free with
    | .running, some task, free + 1 =>
      match task.phase with
      | .queued =>
        some { s with tasks := s.tasks.set n { task with phase := .entered }, free }
      | _ => none
    | _, _, _ => none
  | .advance n =>
    match s.stage, s.tasks[n]? with
    | .running, some task =>
      (task.advance A event).map fun (task', call) =>
        { s with
          tasks := s.tasks.set n task'
          calls := s.calls ++ call.toList
          free := if task'.phase.isDone then s.free + 1 else s.free }
    | _, _ => none
  | .finish =>
    match s.stage with
    | .running =>
      if s.tasks.all fun task => task.phase.isDone then some { s with stage := .ended } else none
    | _ => none
  | .take =>
    match s.free with
    | free + 1 => some { s with free, others := s.others + 1 }
    | 0 => none
  | .give =>
    match s.others with
    | others + 1 => some { s with free := s.free + 1, others }
    | 0 => none

/-- The runs of an event under a bound of so many permits. -/
def fanOut (limit : ℕ) : System (State ν ι) Act where
  init s := s.stage = .checking [] event.hooks ∧ s.tasks = [] ∧ s.calls = [] ∧
    s.free + s.others = limit
  step s a s' := s.step A event a = some s'

end TaiSkeleton.Hooks.FanOut
