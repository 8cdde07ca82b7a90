import TaiSkeleton.Interactions.Keys

/-!
# The stream of the inbox

A connection reads the cursor of the events, then the backlog, and then follows the events from the
cursor on. The events of the store's `MULTI` blocks are appended here to the runs of the store, and
one open stream goes along with them. Every entry is well formed, and the keepalive is left out.
-/

namespace TaiSkeleton.Interactions

open Lib

/-! ## The events -/

inductive EventType where
  | add
  | answered
  | removed
deriving DecidableEq

/-- An entry of the events stream. -/
structure Event where
  type : EventType
  interactionId : InteractionId
  groupId : GroupId
deriving DecidableEq

/-- The event that a call appends when it resolves a question. -/
def Resolution.event : Resolution → EventType
  | .answer _ _ => .answered
  | .prune => .removed

namespace World

/-- The command that a task resolves a question by, at its `EXEC`. -/
def resolves (s : World) (resolution : Resolution) (id : InteractionId) (group : GroupId)
    (stage : Stage) : List Event :=
  if (s.resolve resolution id group stage).2 = .returned true then
    [⟨resolution.event, id, group⟩]
  else []

/-- What the next step of a task appends to the events. -/
def taskEvents (s : World) : Task → List Event
  | .adding request _ (.committing _) => [⟨.add, request.interactionId, request.groupId⟩]
  | .resolving resolver =>
    s.resolves resolver.resolution resolver.id resolver.group resolver.stage
  | .backlog _ (group :: _) _ (.pruning (request :: _) stage) =>
    s.resolves .prune request.interactionId group stage
  | _ => []

def events (s : World) : Label → List Event
  | .step n _ => s.taskEvents (s.tasks n)
  | _ => []

/-- No key that a question uses has run out. -/
def live (s : World) : Bool :=
  s.asked.all fun request =>
    (s.keys.states request.interactionId).all (fun state => s.clock ≤ state.expiresAt) &&
      (s.keys.streams request.groupId).all (fun stream => s.clock ≤ stream.expiresAt) &&
      (s.keys.counts request.groupId).all fun count => s.clock ≤ count.expiresAt

end World

/-! ## A connection -/

inductive Frame where
  | add (request : InteractionRequest)
  | backlogDone
  | answered (id : InteractionId) (group : GroupId)
  | removed (id : InteractionId) (group : GroupId)
deriving DecidableEq

inductive StreamStage where
  /-- Before its `XREVRANGE`. -/
  | connected
  | opened
  /-- The backlog is read by a task of the store. -/
  | reading (n : ℕ)
  | tailing
deriving DecidableEq

structure Connection where
  stage : StreamStage
  /-- How many events lie up to the cursor. -/
  cursor : ℕ
  visible : List InteractionId
  /-- The frames that it has yielded. -/
  frames : List Frame
  /-- When its backlog read the index of the groups, and the groups that it found. -/
  openedAt : Time
  listed : List GroupId
deriving DecidableEq

structure Inbox where
  world : World
  events : List Event
  connection : Connection

inductive InboxLabel where
  /-- A step of the store, which may be one of the connection's own backlog. -/
  | store (a : Label)
  | openStream
  | readBacklog (n : ℕ) (now : Time)
  /-- The backlog has come to its end, and its frames are yielded. -/
  | replay
  /-- The next event. -/
  | tail

section

variable {υ : Type} [DecidableEq υ] (audience : InteractionRequest → Option υ) (caller : Option υ)

/-- A restricted caller sees the questions with its id for their audience, any other all of them. -/
def addressed (request : InteractionRequest) : Bool :=
  match caller with
  | none => true
  | some self => audience request = some self

namespace Connection

variable (c : Connection)

/-- The frame of a question, which a restricted caller sees from then on. -/
def offer (request : InteractionRequest) : Connection :=
  if addressed audience caller request then
    { c with
      visible := if caller.isSome then request.interactionId :: c.visible else c.visible
      frames := c.frames ++ [.add request] }
  else c

/-- The frame that ends a question. -/
def finish (id : InteractionId) (frame : Frame) : Connection :=
  if caller.isSome && !c.visible.contains id then c
  else { c with
    visible := c.visible.filter (· ≠ id)
    frames := c.frames ++ [frame] }

/-- An event, where the state of its question is read after it. -/
def receive (world : World) (event : Event) : Connection :=
  match event.type with
  | .add =>
    match world.readState event.interactionId with
    | none => c
    | some state => c.offer audience caller state.request
  | .answered => c.finish caller event.interactionId (.answered event.interactionId event.groupId)
  | .removed => c.finish caller event.interactionId (.removed event.interactionId event.groupId)

/-- The `ZRANGE` of its backlog, among the steps of the store. -/
def note (world : World) : Label → Connection
  | .step m _ =>
    match c.stage, world.tasks m with
    | .reading n, .listing _ =>
      if m = n then
        { c with
          openedAt := world.clock
          listed := world.keys.pending.range (· ≤ ·) }
      else c
    | _, _ => c
  | _ => c

end Connection

namespace Inbox

variable (s : Inbox)

/-- `_stream_events` among the calls on the store. -/
def next (idleTtl : Time) : InboxLabel → Option Inbox
  | .store a => (s.world.next idleTtl a).map fun world =>
      ⟨world, s.events ++ s.world.events a, s.connection.note s.world a⟩
  | .openStream =>
    if s.connection.stage = .connected then
      some { s with connection := { s.connection with
        stage := .opened
        cursor := s.events.length } }
    else none
  | .readBacklog n now =>
    if s.connection.stage = .opened then
      (s.world.next idleTtl (.backlog n now)).map fun world =>
        ⟨world, s.events, { s.connection with stage := .reading n }⟩
    else none
  | .replay =>
    match s.connection.stage with
    | .reading n =>
      match s.world.tasks n with
      | .backlog _ [] found .reading =>
        let replayed := found.foldl (fun c request => c.offer audience caller request) s.connection
        some { s with
          world := s.world.goOn n .ended
          connection := { replayed with
            stage := .tailing
            frames := replayed.frames ++ [.backlogDone] } }
      | _ => none
    | _ => none
  | .tail =>
    if s.connection.stage = .tailing then
      (s.events[s.connection.cursor]?).map fun event =>
        { s with connection := { s.connection.receive audience caller s.world event with
          cursor := s.connection.cursor + 1 } }
    else none

end Inbox

/-- The runs of the store with one stream, in which no key runs out. -/
def inboxes (idleTtl : Time) : System Inbox InboxLabel where
  init s := s = ⟨.start, [], ⟨.connected, 0, [], [], 0, []⟩⟩
  step s a s' := s.next audience caller idleTtl a = some s' ∧ s'.world.live = true

end

/-! ## The client -/

/-- What a frame makes of the questions that a client holds. -/
def hold (held : List InteractionId) : Frame → List InteractionId
  | .add request => request.interactionId :: held
  | .backlogDone => held
  | .answered id _ | .removed id _ => held.filter (· ≠ id)

/-- The questions that the client holds. -/
def Connection.held (c : Connection) : List InteractionId := c.frames.foldl hold []

/-- The question that a frame names. -/
def Frame.names : Frame → Option InteractionId
  | .add request => some request.interactionId
  | .backlogDone => none
  | .answered id _ | .removed id _ => some id

end TaiSkeleton.Interactions
