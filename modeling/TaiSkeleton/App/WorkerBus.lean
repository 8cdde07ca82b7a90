import Mathlib.Logic.Function.Basic
import TaiSkeleton.Lib.Run

/-!
# The worker bus

The processes of a fleet share one persisted configuration and one control channel. A publisher
persists a generation, reloads its own process through the reload gate and broadcasts; a worker
subscribes, reloads, registers its presence and then handles one frame after another. A connection
that drops loses the frames that it has not handed over.
-/

namespace TaiSkeleton.WorkerBus

open Lib

/-! ## Frames -/

/-- What a frame asks for: to reload the configuration, or another op, which reads no generation of
it. -/
inductive Op where
  | reloadConfig
  | other
deriving DecidableEq

/-- A frame on the control channel; `sender` is the process that it was published by, which its
origin is to tell. -/
structure Frame (π : Type) where
  op : Op
  origin : ℕ
  targets : Option (List ℕ) := none
  sender : π
deriving DecidableEq

/-- What `_handle_op` checks before it runs the callback: the frame is no echo, and the worker is
one of its targets. -/
def Frame.isFor {π : Type} (origin : ℕ) (frame : Frame π) : Bool :=
  frame.origin != origin && frame.targets.all fun targets => targets.contains origin

/-! ## Processes -/

/-- Where the subscription of a worker is. -/
inductive Stage where
  | away
  | resyncing
  | registering
  | listening
  | applying
deriving DecidableEq

/-- The stage of a subscription after its reload. -/
def Stage.reloaded : Stage → Stage
  | .resyncing => .registering
  | .applying => .listening
  | stage => stage

/-- What a reload runs for: the subscription, which resyncs or applies an op, or a publisher. -/
inductive Holder (ρ : Type) where
  | subscription
  | publisher (publisher : ρ)
deriving DecidableEq

/-- A process: its origin, whether its subscription runs, which it does not in a forked child, the
generation that it serves, who holds its reload gate and the generation that the reload has read,
and its side of the control channel. -/
structure Process (π ρ : Type) where
  started : Bool := false
  origin : ℕ := 0
  subscribes : Bool := false
  served : ℕ := 0
  gate : Option (Holder ρ × Option ℕ) := none
  connected : Bool := false
  present : Bool := false
  queue : List (Frame π) := []
  stage : Stage := .away

/-- A publisher in a process: it has persisted a generation, and then it has reloaded. -/
inductive Publisher (π : Type) where
  | idle
  | persisted (process : π) (generation : ℕ)
  | reloaded (process : π) (generation : ℕ)
deriving DecidableEq

/-- The generation whose broadcast is still to be sent. -/
def Publisher.unsent {π : Type} : Publisher π → Option ℕ
  | .idle => none
  | .persisted _ generation | .reloaded _ generation => some generation

/-- The fleet: the newest generation in the store, the origins that have been minted, the processes
and the publishers in them. -/
structure Fleet (π ρ : Type) where
  store : ℕ := 0
  minted : ℕ := 0
  processes : π → Process π ρ := fun _ => {}
  publishers : ρ → Publisher π := fun _ => .idle

/-- The steps of a fleet. -/
inductive Act (π ρ : Type) where
  | boot (process : π)
  | fork (parent child : π)
  | subscribe (process : π)
  | drop (process : π)
  | leave (process : π)
  | register (process : π)
  | handle (process : π)
  | acquire (process : π) (holder : Holder ρ)
  | read (process : π)
  | apply (process : π)
  | persist (publisher : ρ) (process : π)
  | broadcast (publisher : ρ)
  | publish (process : π) (op : Op) (targets : Option (List ℕ))

namespace Fleet

variable {π ρ : Type} [DecidableEq π] [DecidableEq ρ]

/-- A process goes on. -/
def set (process : π) (p : Process π ρ) (s : Fleet π ρ) : Fleet π ρ :=
  { s with processes := Function.update s.processes process p }

/-- A frame reaches each connection that is subscribed. -/
def deliver (frame : Frame π) (s : Fleet π ρ) : Fleet π ρ :=
  { s with processes := fun process =>
      let p := s.processes process
      { p with queue := if p.connected then p.queue ++ [frame] else p.queue } }

/-- Whether a task is at a point where it waits for the reload gate. -/
def wants (s : Fleet π ρ) (process : π) : Holder ρ → Bool
  | .subscription =>
    decide ((s.processes process).stage = .resyncing ∨ (s.processes process).stage = .applying)
  | .publisher publisher =>
    match s.publishers publisher with
    | .persisted home _ => decide (home = process)
    | _ => false

/-- The end of a reload: it is served, the gate is free, and the task goes on. -/
def applied (process : π) (holder : Holder ρ) (generation : ℕ) (s : Fleet π ρ) : Fleet π ρ :=
  let p := { s.processes process with served := generation, gate := none }
  match holder with
  | .subscription => s.set process { p with stage := p.stage.reloaded }
  | .publisher publisher =>
    let publishers :=
      match s.publishers publisher with
      | .persisted home persisted =>
        Function.update s.publishers publisher (.reloaded home persisted)
      | _ => s.publishers
    { s with publishers }.set process p

/-- A step of a fleet. A forked child serves what its parent does and mints an origin of its own. -/
def next (s : Fleet π ρ) : Act π ρ → Option (Fleet π ρ)
  | .boot process =>
    if (s.processes process).started then none
    else
      some ({ s with minted := s.minted + 1 }.set process
        { started := true, origin := s.minted, subscribes := true, served := s.store })
  | .fork parent child =>
    if (s.processes child).started || !(s.processes parent).started then none
    else
      some ({ s with minted := s.minted + 1 }.set child
        { started := true, origin := s.minted, served := (s.processes parent).served })
  | .subscribe process =>
    let p := s.processes process
    if p.subscribes && decide (p.stage = .away) then
      some (s.set process { p with connected := true, queue := [], stage := .resyncing })
    else none
  | .drop process =>
    let p := s.processes process
    some (s.set process { p with connected := false, queue := [] })
  | .leave process =>
    let p := s.processes process
    if !p.connected && decide (p.stage = .registering ∨ p.stage = .listening) then
      some (s.set process { p with present := false, stage := .away })
    else none
  | .register process =>
    let p := s.processes process
    if p.stage = .registering then
      some (s.set process { p with present := true, stage := .listening })
    else none
  | .handle process =>
    let p := s.processes process
    match p.stage, p.queue with
    | .listening, frame :: queue =>
      if frame.isFor p.origin && decide (frame.op = .reloadConfig) then
        some (s.set process { p with queue, stage := .applying })
      else some (s.set process { p with queue })
    | _, _ => none
  | .acquire process holder =>
    let p := s.processes process
    if p.gate = none ∧ s.wants process holder = true then
      some (s.set process { p with gate := some (holder, none) })
    else none
  | .read process =>
    let p := s.processes process
    match p.gate with
    | some (holder, none) => some (s.set process { p with gate := some (holder, some s.store) })
    | _ => none
  | .apply process =>
    match (s.processes process).gate with
    | some (holder, some generation) => some (s.applied process holder generation)
    | _ => none
  | .persist publisher process =>
    if (s.processes process).started && decide (s.publishers publisher = .idle) then
      some { s with
        store := s.store + 1
        publishers :=
          Function.update s.publishers publisher (.persisted process (s.store + 1)) }
    else none
  | .broadcast publisher =>
    match s.publishers publisher with
    | .reloaded process _ =>
      some ({ s with publishers := Function.update s.publishers publisher .idle }.deliver
        { op := .reloadConfig, origin := (s.processes process).origin, sender := process })
    | _ => none
  | .publish process op targets =>
    if (s.processes process).started then
      some (s.deliver { op, origin := (s.processes process).origin, targets, sender := process })
    else none

end Fleet

/-- The fleets from nothing on. -/
def workerBus (π ρ : Type) [DecidableEq π] [DecidableEq ρ] : System (Fleet π ρ) (Act π ρ) where
  init s := s = {}
  step s a s' := s.next a = some s'

end TaiSkeleton.WorkerBus
