import TaiSkeleton.Interactions.Stored

/-!
# Asking a user

A call of `ask_user` reserves a slot of the open index where the number of open questions is
capped, stores its question, has a channel deliver it where it names one, and waits for the reply.
Each of these can fail, before or after it has had its effect, or be cancelled; some of the failures
are followed by `prune_pending`. All the while other calls go on, answers among them.

What comes before the first command on the store is left out: it leaves nothing behind.
-/

namespace TaiSkeleton.Interactions

open Lib

/-! ## The calls -/

/-- What a call of `ask_user` comes to the store with. -/
structure AskCall where
  request : InteractionRequest
  channel : Bool
deriving DecidableEq

/-- Where a call of `ask_user` is. While it cleans up, `waits` is whether it goes on to wait for the
reply where nothing was pruned. -/
inductive AskStage where
  | idle
  | reserving (call : AskCall)
  | storing (call : AskCall)
  | adding (call : AskCall) (n : ℕ)
  | delivering (call : AskCall)
  | waiting (call : AskCall)
  | abandoning (call : AskCall) (waits : Bool)
  | pruning (call : AskCall) (n : ℕ) (waits : Bool)
  | returned (call : AskCall)
  | raised (call : AskCall)
deriving DecidableEq

/-- When a command fails or is cancelled: before it has had its effect, or after. -/
inductive Fault where
  | before
  | after
deriving DecidableEq

/-- How `deliver` comes out. -/
inductive Delivery where
  | delivered
  | failed
  | cancelled
deriving DecidableEq

/-- How the wait for the reply comes out; where it fails, the connection does, or its
`wait_for`. -/
inductive Reply where
  | answered
  | timedOut
  | cancelled
  | failed
deriving DecidableEq

/-- The store with the calls of `ask_user` on it, each under the id of its question. -/
structure AskWorld where
  world : World
  calls : InteractionId → AskStage
  /-- The call that a task of the store is of. -/
  owner : ℕ → Option InteractionId
  /-- The questions whose `add` has taken effect. -/
  stored : List InteractionRequest

inductive AskLabel where
  | ask (call : AskCall)
  | reserve (id : InteractionId) (now : Time) (fault : Option Fault)
  | add (id : InteractionId) (n : ℕ)
  | stepAdd (id : InteractionId) (now : Time) (fault : Option Fault)
  | deliver (id : InteractionId) (delivery : Delivery)
  | wait (id : InteractionId) (reply : Reply)
  | prune (id : InteractionId) (n : ℕ)
  | stepPrune (id : InteractionId) (now : Time)
  | other (a : Label)
deriving DecidableEq

namespace AskWorld

/-- A command on the store. -/
def run (idleTtl : Time) (s : AskWorld) (a : Label) : Option AskWorld :=
  (s.world.next idleTtl a).map fun world =>
    { s with world, stored := s.world.stores a ++ s.stored }

def goTo (s : AskWorld) (id : InteractionId) (stage : AskStage) : AskWorld :=
  { s with calls := Function.update s.calls id stage }

/-- A call has a task of the store for its own. -/
def own (s : AskWorld) (n : ℕ) (id : InteractionId) : AskWorld :=
  { s with owner := Function.update s.owner n (some id) }

/-- The commands that are none of `ask_user`, of which alone `add` and `reserve_open_slot` are
called. -/
def isOther (s : AskWorld) : Label → Bool
  | .add _ _ _ | .reserveOpenSlot _ _ _ => false
  | .step n _ | .crash n => s.owner n = none
  | .resolve _ _ _ _ | .backlog _ _ | .tick _ => true

/-- Where a call is after a command of its `add`. -/
def afterAdd (call : AskCall) (n : ℕ) (task : Task) : AskStage :=
  if task = .ended then if call.channel then .delivering call else .waiting call
  else .adding call n

/-- Where a call is after a command of its `prune_pending`. -/
def afterPrune (call : AskCall) (n : ℕ) (waits : Bool) : Outcome → AskStage
  | .goesOn _ => .pruning call n waits
  | .returned false => if waits then .waiting call else .raised call
  | .returned true | .raised => .raised call

/-- The world after a step, where there is such a step. -/
def next (idleTtl : Time) (limit : Option ℕ) (s : AskWorld) : AskLabel → Option AskWorld
  | .ask call =>
    match s.calls call.request.interactionId with
    | .idle =>
      some (s.goTo call.request.interactionId
        (if limit.isSome then .reserving call else .storing call))
    | _ => none
  | .reserve id now fault =>
    match s.calls id, limit with
    | .reserving call, some limit =>
      let reserved := s.world.keys.openReserve now limit call.request
      match fault with
      | some .before => some (s.goTo id (.raised call))
      | some .after =>
        (s.run idleTtl (.reserveOpenSlot now limit call.request)).map (·.goTo id (.raised call))
      | none =>
        (s.run idleTtl (.reserveOpenSlot now limit call.request)).map
          (·.goTo id (if reserved.2 then .storing call else .raised call))
    | _, _ => none
  | .add id n =>
    match s.calls id with
    | .storing call =>
      (s.run idleTtl (.add n call.request limit.isSome)).map
        fun s => (s.own n id).goTo id (.adding call n)
    | _ => none
  | .stepAdd id now fault =>
    match s.calls id with
    | .adding call n =>
      match fault with
      | some .before => (s.run idleTtl (.crash n)).map (·.goTo id (.raised call))
      | some .after =>
        (s.run idleTtl (.step n now)).bind fun s =>
          (s.run idleTtl (.crash n)).map (·.goTo id (.raised call))
      | none =>
        (s.run idleTtl (.step n now)).map
          fun s => s.goTo id (afterAdd call n (s.world.tasks n))
    | _ => none
  | .deliver id delivery =>
    match s.calls id with
    | .delivering call =>
      some (s.goTo id (match delivery with
        | .delivered => .waiting call
        | .failed => .abandoning call true
        | .cancelled => .abandoning call false))
    | _ => none
  | .wait id reply =>
    match s.calls id with
    | .waiting call =>
      match reply with
      | .answered =>
        if s.world.keys.replies id = [] then none else some (s.goTo id (.returned call))
      | .timedOut | .cancelled => some (s.goTo id (.abandoning call false))
      -- only a `CancelledError` is caught
      | .failed => some (s.goTo id (.raised call))
    | _ => none
  | .prune id n =>
    match s.calls id with
    | .abandoning call waits =>
      (s.run idleTtl (.resolve n .prune id call.request.groupId)).map
        fun s => (s.own n id).goTo id (.pruning call n waits)
    | _ => none
  | .stepPrune id now =>
    match s.calls id with
    | .pruning call n waits =>
      match s.world.tasks n with
      | .resolving resolver =>
        let done := s.world.resolve resolver.resolution resolver.id resolver.group resolver.stage
        (s.run idleTtl (.step n now)).map (·.goTo id (afterPrune call n waits done.2))
      | _ => none
    | _ => none
  | .other a => if s.isOther a then s.run idleTtl a else none

/-- Before the first call. -/
def start : AskWorld where
  world := .start
  calls _ := .idle
  owner _ := none
  stored := []

end AskWorld

/-- Every interleaving of the calls of `ask_user` with each other and with the other calls on the
store; `limit` is `max_concurrent`. -/
def askUser (idleTtl : Time) (limit : Option ℕ) : System AskWorld AskLabel where
  init s := s = .start
  step s a s' := s.next idleTtl limit a = some s'

end TaiSkeleton.Interactions
