import TaiSkeleton.Conversations.Records
import TaiSkeleton.Conversations.SplitMessage
import TaiSkeleton.Lib.Run

/-!
# The delivery of one record

Any number of workers deliver one record at once: the tasks of `deliver`, each under a token of
its own, and the calls of `mark_wait_delivered`. A task is what it still has to do; the next
command it sends to the record store, the send ledger, the channel or the callback is `Task.cmd`,
and each `on…` is how it goes on with the answer. Between a command and the next any time may
pass, and a task may die before any of them. The rest of the process (the turn, the intake
re-drive, the receipts, the expiry of keys) acts on the record in between.

The reverse index of outbound ids is left out: a receipt may come at any time for any record.
-/

namespace TaiSkeleton.Conversations

open Lib

inductive Door where
  | channel
  | api
deriving DecidableEq

/-- What a delivery reads of a record's content. -/
structure Content where
  door : Door
  channel : Option String
  answer : Option Text
  callbackUrl : Option String
deriving DecidableEq

/-- An entry of the send ledger. -/
structure SentChunk where
  chars : ℕ
  outboundIds : List String
deriving DecidableEq

structure DeliverySettings extends ConversationsSettings where
  deliveryClaimLeaseSeconds : Time
  deliveryMaxAttempts : ℤ
  deliveryBackoffBaseSeconds : Time
  deliveryBackoffMaxSeconds : Time
  maxOutboundChunks : ℕ
deriving DecidableEq

/-- The settings of a deployment that keeps the defaults. -/
def defaultDelivery : DeliverySettings where
  toConversationsSettings := defaultSettings
  deliveryClaimLeaseSeconds := 120
  deliveryMaxAttempts := 8
  deliveryBackoffBaseSeconds := 60
  deliveryBackoffMaxSeconds := 900
  maxOutboundChunks := 10

/-- `_backoff_seconds` -/
def backoffSeconds (settings : DeliverySettings) (attempt : ℤ) : Time :=
  min (settings.deliveryBackoffBaseSeconds * 2 ^ (attempt - 1).toNat)
    settings.deliveryBackoffMaxSeconds

/-! ## A task -/

/-- What a task still has to do. -/
inductive Task where
  | idle
  /-- `deliver`: the claim. -/
  | claiming
  /-- `deliver`: the claim is won, the record is to be read. -/
  | reading
  /-- A delivery that cannot be made: the attempt is counted, then the record failed. -/
  | miscounting
  /-- The record is to be failed; where that is this worker's write, the ledger may be cleared. -/
  | failing (attempts : ℤ) (clears : Bool)
  | clearing
  | counting (answer : Text) (maxChars : ℕ)
  | resuming (answer : Text) (maxChars : ℕ) (attempts : ℤ)
  | refusing (attempts : ℤ)
  /-- The chunks are still to be sent, the lease to be refreshed before each. -/
  | sending (attempts : ℤ) (outboundIds : List String) (chunks : List Text)
  | notifying (attempts : ℤ) (outboundIds : List String) (chunk : Text) (rest : List Text)
  /-- The chunk is accepted, or blank: it is to be ledgered. -/
  | ledgering (attempts : ℤ) (outboundIds : List String) (chunk : Text) (ids : List String)
      (rest : List Text)
  | apiCounting
  | posting (attempt : ℤ)
  /-- The callback has been answered, or not. -/
  | posted (attempt : ℤ) (status : Option ℕ)
  | waitClaiming
  | waitCounting
  | waitMarking (attempts : ℤ)
  /-- `mark_wait_delivered` has returned `True`: the door answers with the text. -/
  | answered
  | ended
deriving DecidableEq

/-- A command of a task. -/
inductive Cmd where
  | claimDelivery (leaseSeconds : Time)
  | getRecord
  | bumpAttempt
  | markProvisional (outboundIds : List String) (attempts : ℤ)
  | markDelivered (outboundIds : List String) (attempts : ℤ)
  | markFailed (attempts : ℤ)
  | sentChunks
  | append (entry : SentChunk)
  | clear
  | notify (message : Text)
  | post
deriving DecidableEq

/-- `_OVERSIZED_ANSWER_TEXT` -/
def oversizedAnswerText : Text :=
  "Sorry, the answer was too long to send here. Please ask for a shorter response.".toList

/-- A status that acknowledges the callback. -/
def acknowledges (status : Option ℕ) : Bool :=
  match status with
  | none => false
  | some code => decide (200 ≤ code ∧ code < 300)

/-- What the configuration says when a delivery starts. -/
structure Config where
  /-- The channel's entry of `max_message_chars`. -/
  maxMessageChars : Option ℕ
  /-- The channel is registered. -/
  registered : Bool
  /-- The route is there and carries a callback secret. -/
  routable : Bool
deriving DecidableEq

/-- How a `notify` ends. -/
inductive Notified where
  | accepted (outboundIds : List String)
  /-- No answer in time; the provider may have taken the chunk. -/
  | timeout (taken : Bool)
  /-- `ChannelDeliveryError` -/
  | refused
deriving DecidableEq

namespace Task

section

variable (settings : DeliverySettings)

/-- The next command. -/
def cmd : Task → Option Cmd
  | idle | answered | ended => none
  | claiming | waitClaiming => some (.claimDelivery settings.deliveryClaimLeaseSeconds)
  | reading => some .getRecord
  | miscounting | counting _ _ | apiCounting | waitCounting => some .bumpAttempt
  | failing attempts _ => some (.markFailed attempts)
  | clearing => some .clear
  | resuming _ _ _ => some .sentChunks
  | refusing _ => some (.notify oversizedAnswerText)
  | sending attempts outboundIds [] => some (.markProvisional outboundIds attempts)
  | sending _ _ (_ :: _) => some (.claimDelivery settings.deliveryClaimLeaseSeconds)
  | notifying _ _ chunk _ => some (.notify chunk)
  | ledgering _ _ chunk ids _ => some (.append ⟨chunk.length, ids⟩)
  | posting _ => some .post
  | posted attempt status =>
    if acknowledges status then some (.markDelivered [] attempt)
    else if settings.deliveryMaxAttempts ≤ attempt then some (.markFailed attempt)
    else some (.claimDelivery (backoffSeconds settings attempt + settings.deliveryClaimLeaseSeconds))
  | waitMarking attempts => some (.markDelivered [] attempts)

/-- The code of a claim or of a status write. -/
def onCode (code : ℤ) : Task → Task
  | claiming => if code = 1 then reading else ended
  | waitClaiming => if code = 1 then waitCounting else ended
  | failing _ clears => if clears && code == 1 then clearing else ended
  | sending _ _ [] => if code = 1 then clearing else ended
  | sending attempts outboundIds (chunk :: rest) =>
    if code ≠ 1 then ended
    else if isBlank chunk then ledgering attempts outboundIds chunk [] rest
    else notifying attempts outboundIds chunk rest
  | posted attempt status =>
    if acknowledges status ∨ settings.deliveryMaxAttempts ≤ attempt ∨ code ≠ 1 then ended
    else apiCounting
  | waitMarking _ => if code = 1 then answered else ended
  | _ => ended

/-- The record, where it is still there. -/
def onRecord (config : Config) (row : Option (Row Content)) : Task → Task
  | reading =>
    match row with
    | none => ended
    | some row =>
      if row.deliveryStatus ≠ .pendingDelivery then ended
      else if settings.deliveryMaxAttempts ≤ row.attempts then failing row.attempts false
      else match row.data.door with
        | .channel =>
          if row.data.channel = none then ended
          else match row.data.answer with
            | none => ended
            | some answer =>
              match config.maxMessageChars with
              | none => miscounting
              | some maxChars => if config.registered then counting answer maxChars else miscounting
        | .api =>
          if config.routable && row.data.callbackUrl.isSome then apiCounting else miscounting
  | _ => ended

/-- The count of attempts. -/
def onAttempts (attempts : ℤ) : Task → Task
  | miscounting => failing attempts false
  | counting answer maxChars => resuming answer maxChars attempts
  | apiCounting => posting attempts
  | waitCounting => waitMarking attempts
  | _ => ended

/-- Whether an answer of which nothing is out has too many chunks. -/
def oversized (sent : List SentChunk) (answer : Text) (maxChars : ℕ) : Option Bool :=
  if sent ≠ [] then some false
  else (splitMessage answer maxChars).map fun chunks =>
    decide (settings.maxOutboundChunks < chunks.length)

/-- The ledger: where to resume, and in which chunks. -/
def onEntries (sent : List SentChunk) : Task → Task
  | resuming answer maxChars attempts =>
    let remaining := answer.drop (sent.map SentChunk.chars).sum
    if answer.length < (sent.map SentChunk.chars).sum then failing attempts true
    else match oversized settings sent answer maxChars with
      | none => ended
      | some true => refusing attempts
      | some false =>
        match if remaining = [] then some [] else splitMessage remaining maxChars with
        | none => ended
        | some chunks => sending attempts (sent.flatMap SentChunk.outboundIds) chunks
  | _ => ended

/-- The channel's answer. The refusal of an oversized answer fails the record in any case. -/
def onNotified (notified : Notified) : Task → Task
  | refusing attempts => failing attempts false
  | notifying attempts outboundIds chunk rest =>
    match notified with
    | .accepted ids => ledgering attempts outboundIds chunk ids rest
    | .timeout _ => ended
    | .refused => failing attempts true
  | _ => ended

/-- The ledger entry is written. -/
def onAppended : Task → Task
  | ledgering attempts outboundIds _ ids rest => sending attempts (outboundIds ++ ids) rest
  | _ => ended

/-- The callback's status. -/
def onStatus (status : Option ℕ) : Task → Task
  | posting attempt => posted attempt status
  | _ => ended

end

end Task

/-! ## The world of one record -/

structure World where
  record : Record Content
  ledger : List SentChunk
  tasks : Token → Task
  /-- `create_record` has been called; an id is minted once. -/
  created : Bool
  clock : Time
  /-- The expiry of the lease a worker last obtained. -/
  leases : Token → Option Time
  /-- The worker that last won `claim_delivery`. -/
  winner : Option Token
  /-- How often `complete_turn` has answered `1`. -/
  completions : ℕ
  /-- What the provider has taken, in order. -/
  sent : List Text
  /-- Callbacks acknowledged. -/
  acknowledged : ℕ
  /-- Answers returned by the API door. -/
  answers : ℕ

/-- What the world answers a task with. -/
structure Input where
  config : Config
  notified : Notified
  status : Option ℕ
deriving DecidableEq

inductive Label where
  | create (data : Content) (status : DeliveryStatus) (intakeToken : Option Token) (now : Time)
  | completeTurn (data : Content) (now : Time)
  | claimIntake (now : Time) (token : Token) (leaseSeconds : Time)
  | deleteRecord
  | receipt (receipt : DeliveryReceipt) (now : Time)
  | expire
  | expireLedger
  | tick (now : Time)
  | deliver (token : Token)
  | waitDeliver (token : Token)
  | run (token : Token) (now : Time) (input : Input)
  | crash (token : Token)
deriving DecidableEq

namespace World

section

variable (settings : DeliverySettings)

/-- The world where a task goes on. -/
def goOn (s : World) (token : Token) (task : Task) : World :=
  { s with tasks := Function.update s.tasks token task }

/-- A command is carried out and its task goes on. -/
def perform (s : World) (token : Token) (now : Time) (input : Input) : Cmd → World
  | .claimDelivery leaseSeconds =>
    let done := claimDelivery now token leaseSeconds s.record
    { s.goOn token ((s.tasks token).onCode settings done.2) with
      record := done.1
      leases := if done.2 = 1 then Function.update s.leases token (some (now + leaseSeconds))
        else s.leases
      winner := if done.2 = 1 then some token else s.winner }
  | .getRecord => s.goOn token ((s.tasks token).onRecord settings input.config s.record.row?)
  | .bumpAttempt =>
    let done := bumpAttempt s.record
    { s.goOn token ((s.tasks token).onAttempts done.2) with record := done.1 }
  | .markProvisional outboundIds attempts =>
    let done := markProvisional settings.toConversationsSettings outboundIds attempts now token
      s.record
    { s.goOn token ((s.tasks token).onCode settings done.2) with record := done.1 }
  | .markDelivered outboundIds attempts =>
    let done := markDelivered settings.toConversationsSettings outboundIds attempts now token
      s.record
    let task := (s.tasks token).onCode settings done.2
    { s.goOn token task with
      record := done.1
      answers := if task = .answered then s.answers + 1 else s.answers }
  | .markFailed attempts =>
    let done := markFailed settings.toConversationsSettings attempts now token s.record
    { s.goOn token ((s.tasks token).onCode settings done.2) with record := done.1 }
  | .sentChunks => s.goOn token ((s.tasks token).onEntries settings s.ledger)
  | .append entry =>
    { s.goOn token (s.tasks token).onAppended with ledger := s.ledger ++ [entry] }
  | .clear => { s.goOn token .ended with ledger := [] }
  | .notify message =>
    { s.goOn token ((s.tasks token).onNotified input.notified) with
      sent := match input.notified with
        | .accepted _ => s.sent ++ [message]
        | .timeout true => s.sent ++ [message]
        | _ => s.sent }
  | .post =>
    { s.goOn token ((s.tasks token).onStatus input.status) with
      acknowledged := if acknowledges input.status then s.acknowledged + 1 else s.acknowledged }

/-- The world after a step, where there is such a step. -/
def next (s : World) : Label → Option World
  | .create data status intakeToken now =>
    if s.created then none
    else some { s with
      created := true
      record := createRecord settings.toConversationsSettings data status [] 0 now intakeToken now
        s.record }
  | .completeTurn data now =>
    let done := completeTurn settings.toConversationsSettings data now s.record
    some { s with
      record := done.1
      completions := if done.2 = 1 then s.completions + 1 else s.completions }
  | .claimIntake now token leaseSeconds =>
    some { s with record := (claimIntake now token leaseSeconds s.record).1 }
  | .deleteRecord => some { s with record := (deleteRecord s.record).1 }
  | .receipt receipt now =>
    some { s with record := (ingestReceipt settings.toConversationsSettings receipt now s.record).1 }
  | .expire => some { s with record := expire s.record }
  | .expireLedger => some { s with ledger := [] }
  | .tick now => if s.clock ≤ now then some { s with clock := now } else none
  | .deliver token => if s.tasks token = .idle then some (s.goOn token .claiming) else none
  | .waitDeliver token => if s.tasks token = .idle then some (s.goOn token .waitClaiming) else none
  | .run token now input =>
    ((s.tasks token).cmd settings).map fun cmd => s.perform settings token now input cmd
  | .crash token => some (s.goOn token .ended)

end

/-- Before the record is created. -/
def start : World where
  record := .absent
  ledger := []
  tasks _ := .idle
  created := false
  clock := 0
  leases _ := none
  winner := none
  completions := 0
  sent := []
  acknowledged := 0
  answers := 0

end World

/-- Every interleaving of the workers on one record. -/
def delivery (settings : DeliverySettings) : System World Label where
  init s := s = .start
  step s a s' := s.next settings a = some s'

end TaiSkeleton.Conversations
