import TaiSkeleton.Conversations.LifeCycle

/-!
# The commit of an inbound message

A channel may deliver one inbound message many times over. Each `accept` mints a record of its
own, and the claim of the `(channel, provider_message_id)` pair, a get-or-set that is never
released, says which of them the message is committed to. This is the world of one pair: the
calls, the turns they schedule, the resolution of what a call leaves behind, and the passes of
`redrive_accepted`. Any await may fail or be cancelled, its command carried out or not, and a
worker may die at any point. The marker of the pair does not run out.

A call is known by the `message_id` it mints. What a record holds beside its answer is the same
in all writes of it.
-/

namespace TaiSkeleton.Conversations.Inbound

open Lib

/-- `_ERROR_ANSWER_TEXT` -/
def errorAnswerText : Text :=
  "Sorry, something went wrong handling your message. Please try again.".toList

/-- `_SLOW_DOWN_TEXT` -/
def slowDownText : Text :=
  "You are sending messages faster than I can answer. Please wait a moment and try again.".toList

/-- `AddressAdmission` -/
inductive AddressAdmission where
  | admitted
  | shedWithReply
  | shedSilent
deriving DecidableEq

/-- The resolution of a record left at intake, against its pair. -/
inductive Arbiter where
  /-- `_resolve_stranded_intake`: the record is to be read. -/
  | reading
  /-- `redrive_accepted`: the intake lease is to be taken. -/
  | adopting (token : Token)
  /-- `_owns_inbound_claim` -/
  | arbitrating
  /-- `_fail_stranded_turn` -/
  | failing
  | discarding
  | done
deriving DecidableEq

/-- What an `accept` still has to do. -/
inductive Call where
  | idle
  /-- `get_inbound_owner`, the fast path of a redelivery. -/
  | checking (token : Token)
  | creating (admission : AddressAdmission) (token : Token)
  | claiming (admission : AddressAdmission) (token : Token)
  /-- The pair is another record's: this one is to be deleted. -/
  | discarding (owner : MessageId)
  /-- The slow-down reply is to be committed. -/
  | shedding
  /-- The turn is scheduled, and has not started. -/
  | scheduled (token : Token)
  | running (token : Token)
  /-- The turn has an answer. -/
  | answering (answer : Text) (token : Token)
  | resolving (arbiter : Arbiter)
  | ended
deriving DecidableEq

/-- A command to the record store. -/
inductive Command where
  | getInboundOwner
  | createRecord (status : DeliveryStatus) (intakeToken : Option Token)
  | claimInbound
  | deleteRecord
  | completeTurn (answer : Text)
  | getRecord
  | claimIntake (token : Token)
deriving DecidableEq

/-- What the record store answers. -/
structure Reply where
  owner : Option MessageId := none
  code : ℤ := 0
  row : Option (Row (Option Text)) := none

namespace Arbiter

/-- The next command. -/
def command : Arbiter → Option Command
  | reading => some .getRecord
  | adopting token => some (.claimIntake token)
  | arbitrating => some .claimInbound
  | failing => some (.completeTurn errorAnswerText)
  | discarding => some .deleteRecord
  | done => none

/-- How the resolution of a record goes on. -/
def onReply (id : MessageId) (reply : Reply) : Arbiter → Arbiter
  | reading =>
    match reply.row with
    | none => done
    | some row => if row.deliveryStatus = .accepted then arbitrating else done
  | adopting _ => if reply.code = 1 then arbitrating else done
  | arbitrating => if reply.owner = some id then failing else discarding
  | _ => done

end Arbiter

namespace Call

/-- The next command. -/
def command : Call → Option Command
  | idle | scheduled _ | running _ | ended => none
  | checking _ => some .getInboundOwner
  | creating .shedSilent _ => some (.createRecord .shed none)
  | creating _ token => some (.createRecord .accepted (some token))
  | claiming _ _ => some .claimInbound
  | discarding _ => some .deleteRecord
  | shedding => some (.completeTurn slowDownText)
  | answering answer _ => some (.completeTurn answer)
  | resolving arbiter => arbiter.command

/-- How a call goes on; without an admission the thread has no slot free. -/
def onReply (id : MessageId) (admission : Option AddressAdmission) (reply : Reply) : Call → Call
  | checking token =>
    match reply.owner, admission with
    | none, some admission => creating admission token
    | _, _ => ended
  | creating admission token => claiming admission token
  | claiming admission token =>
    match reply.owner with
    | none => ended
    | some owner =>
      if owner ≠ id then discarding owner
      else match admission with
        | .admitted => scheduled token
        | .shedWithReply => shedding
        | .shedSilent => ended
  | answering _ _ => if reply.code = 1 then ended else resolving .reading
  | resolving arbiter => resolving (arbiter.onReply id reply)
  | _ => ended

/-- The id that the call returns on this reply. -/
def returns (id : MessageId) (reply : Reply) : Call → Option MessageId
  | checking _ => reply.owner
  | claiming .shedWithReply _ => none
  | claiming _ _ => if reply.owner = some id then some id else none
  | discarding owner => some owner
  | shedding => if reply.code = 1 then some id else none
  | _ => none

/-- How a call, or its turn, goes on where an await raises. -/
def interrupted (cancelled : Bool) : Call → Call
  | creating .shedSilent _ | claiming .shedSilent _ => ended
  | creating _ _ | claiming _ _ => resolving .reading
  | scheduled _ | running _ | answering _ _ => if cancelled then ended else resolving .reading
  | _ => ended

/-- The token under which a turn refreshes its intake lease. -/
def leaseToken : Call → Option Token
  | scheduled token | running token | answering _ token => some token
  | _ => none

end Call

/-! ## The world of one pair -/

structure World where
  /-- The dedupe marker. -/
  marker : Option MessageId
  records : MessageId → Record (Option Text)
  calls : MessageId → Call
  /-- The records that passes of the re-drive are at. -/
  passes : ℕ → Option (MessageId × Arbiter)
  /-- What calls have returned. -/
  returned : List MessageId
  /-- The turns started. -/
  started : List MessageId
  /-- The records that have become `pending_delivery`. -/
  completed : List MessageId

inductive Label where
  | accept (id : MessageId) (token : Token)
  | call (id : MessageId) (now : Time) (admission : Option AddressAdmission)
  /-- An await raises; the command may have been carried out. -/
  | interrupt (id : MessageId) (now : Time) (applied cancelled : Bool)
  | crash (id : MessageId)
  | startTurn (id : MessageId)
  | endTurn (id : MessageId) (answer : Text)
  | refresh (id : MessageId) (now : Time)
  | redrive (n : ℕ) (id : MessageId) (token : Token)
  | pass (n : ℕ) (now : Time)
  | passFails (n : ℕ) (now : Time) (applied : Bool)
  /-- The delivery machine moves a record on, or its row is removed. -/
  | deliver (id : MessageId) (record : Record (Option Text))

namespace World

section

variable (settings : ConversationsSettings)

def setRecord (s : World) (id : MessageId) (record : Record (Option Text)) : World :=
  { s with records := Function.update s.records id record }

def setCall (s : World) (id : MessageId) (call : Call) : World :=
  { s with calls := Function.update s.calls id call }

def setPass (s : World) (n : ℕ) (id : MessageId) (arbiter : Arbiter) : World :=
  { s with passes := Function.update s.passes n (some (id, arbiter)) }

/-- A command about one record. -/
def exec (s : World) (id : MessageId) (now : Time) : Command → World × Reply
  | .getInboundOwner => (s, { owner := s.marker })
  | .createRecord status intakeToken =>
    (s.setRecord id (createRecord settings none status [] 0 now intakeToken now (s.records id)), {})
  | .claimInbound =>
    ({ s with marker := some (s.marker.getD id) }, { owner := some (s.marker.getD id) })
  | .deleteRecord => (s.setRecord id (deleteRecord (s.records id)).1, {})
  | .completeTurn answer =>
    let done := completeTurn settings (some answer) now (s.records id)
    ({ s.setRecord id done.1 with
        completed := if done.2 = 1 then id :: s.completed else s.completed },
      { code := done.2 })
  | .getRecord => (s, { row := (s.records id).row? })
  | .claimIntake token =>
    let done := claimIntake now token settings.intakeClaimLeaseSeconds (s.records id)
    (s.setRecord id done.1, { code := done.2 })

/-- A call goes on with the answer to its command. -/
def runCall (s : World) (id : MessageId) (now : Time) (admission : Option AddressAdmission)
    (command : Command) : World :=
  let done := s.exec settings id now command
  { done.1.setCall id ((s.calls id).onReply id admission done.2) with
    returned := ((s.calls id).returns id done.2).toList ++ s.returned }

/-- The command of an await that raises. -/
def execIf (applied : Bool) (s : World) (id : MessageId) (now : Time) (command : Option Command) :
    World :=
  match command with
  | some command => if applied then (s.exec settings id now command).1 else s
  | none => s

/-- The world after a step, where there is such a step. -/
def next (s : World) : Label → Option World
  | .accept id token =>
    if s.calls id = .idle then some (s.setCall id (.checking token)) else none
  | .call id now admission =>
    (s.calls id).command.map fun command => s.runCall settings id now admission command
  | .interrupt id now applied cancelled =>
    if s.calls id = .idle then none
    else some ((s.execIf settings applied id now (s.calls id).command).setCall id
      ((s.calls id).interrupted cancelled))
  | .crash id => some (s.setCall id .ended)
  | .startTurn id =>
    match s.calls id with
    | .scheduled token =>
      some { s.setCall id (.running token) with started := id :: s.started }
    | _ => none
  | .endTurn id answer =>
    match s.calls id with
    | .running token => some (s.setCall id (.answering answer token))
    | _ => none
  | .refresh id now =>
    (s.calls id).leaseToken.map fun token => (s.exec settings id now (.claimIntake token)).1
  | .redrive n id token =>
    if s.passes n = none then some (s.setPass n id (.adopting token)) else none
  | .pass n now =>
    match s.passes n with
    | some (id, arbiter) => arbiter.command.map fun command =>
      let done := s.exec settings id now command
      done.1.setPass n id (arbiter.onReply id done.2)
    | none => none
  | .passFails n now applied =>
    match s.passes n with
    | some (id, arbiter) =>
      some ((s.execIf settings applied id now arbiter.command).setPass n id .done)
    | none => none
  | .deliver id record =>
    if (s.records id).row?.any (·.deliveryStatus ≠ .accepted) ∧
        record.row?.all (·.deliveryStatus ≠ .accepted) then
      some (s.setRecord id record)
    else none

end

/-- Nothing has come in yet. -/
def start : World where
  marker := none
  records _ := .absent
  calls _ := .idle
  passes _ := none
  returned := []
  started := []
  completed := []

end World

/-- Every interleaving of the calls and the passes for one pair. -/
def inbound (settings : ConversationsSettings) : System World Label where
  init s := s = .start
  step s a s' := s.next settings a = some s'

end TaiSkeleton.Conversations.Inbound
