import TaiSkeleton.Lib.Expiring
import TaiSkeleton.Lib.Run
import TaiSkeleton.Lib.SortedSet
import Mathlib.Logic.Function.Basic

/-!
# The store of the interactions

The questions that wait for an answer are kept in Redis: a stream for each group, a state hash
for each question, a count of the pending ones for each group, and the indexes of the groups with
a pending question, by creation and by furthest deadline. Times are milliseconds; a key reads as
absent once the server's clock has passed its expiry.

The events tail, the ticket keys and the expiry of the reply lists are left out: nothing here
reads them.
-/

namespace TaiSkeleton.Interactions

open Lib

abbrev Time := ℤ

abbrev InteractionId := ℕ

abbrev GroupId := ℕ

/-- What the store reads of a question. -/
structure InteractionRequest where
  interactionId : InteractionId
  groupId : GroupId
  createdAt : Time
  timeoutAt : Time
  sensitive : Bool
deriving DecidableEq

inductive Status where
  | pending
  | answered
deriving DecidableEq

/-- The state hash of a question. -/
structure InteractionState where
  status : Status
  request : InteractionRequest
  response : Option String
deriving DecidableEq

structure Keys where
  streams : GroupId → Option (Expiring (List InteractionRequest))
  states : InteractionId → Option (Expiring InteractionState)
  counts : GroupId → Option (Expiring ℤ)
  /-- `pending_key` -/
  pending : SortedSet GroupId
  /-- `pending_deadline_key` -/
  pendingDeadline : SortedSet GroupId
  /-- `open_key` -/
  openIndex : SortedSet InteractionId
  /-- What the reply list of a question has received. -/
  replies : InteractionId → List String
  /-- How often a state hash has been written, which a `WATCH` on it sees. -/
  stateWrites : InteractionId → ℕ
  /-- How often a count has been written. -/
  countWrites : GroupId → ℕ

namespace Keys

def empty : Keys where
  streams _ := none
  states _ := none
  counts _ := none
  pending := .empty
  pendingDeadline := .empty
  openIndex := .empty
  replies _ := []
  stateWrites _ := 0
  countWrites _ := 0

variable (k : Keys)

/-- The group is dropped from an index. -/
def dropPending (group : GroupId) : Keys := { k with pending := k.pending.rem group }

def dropDeadline (group : GroupId) : Keys :=
  { k with pendingDeadline := k.pendingDeadline.rem group }

def setState (id : InteractionId) (state : Option (Expiring InteractionState)) : Keys :=
  { k with
    states := Function.update k.states id state
    stateWrites := Function.update k.stateWrites id (k.stateWrites id + 1) }

def setCount (group : GroupId) (count : Option (Expiring ℤ)) : Keys :=
  { k with
    counts := Function.update k.counts group count
    countWrites := Function.update k.countWrites group (k.countWrites group + 1) }

/-- `_PENDING_PURGE_LUA`: the groups whose furthest deadline has passed are dropped from both
indexes, but for the group of the call. -/
def pendingPurge (now : Time) (current : GroupId) : Keys :=
  ((k.pendingDeadline.rangeByScore 0 now).filter (· ≠ current)).foldl
    (fun k group => (k.dropPending group).dropDeadline group) k

/-- `_OPEN_RESERVE_LUA` -/
def openReserve (now : Time) (limit : ℕ) (request : InteractionRequest) : Keys × Bool :=
  let purged := k.openIndex.remRangeByScore 0 now
  if limit ≤ purged.card then ({ k with openIndex := purged }, false)
  else ({ k with openIndex := purged.add request.interactionId request.timeoutAt }, true)

/-- `EXPIRE` of a sibling's state hash. -/
def refreshState (now expiresAt : Time) (k : Keys) (id : InteractionId) : Keys :=
  match Expiring.read now (k.states id) with
  | none => k
  | some state => k.setState id (some ⟨state, expiresAt⟩)

/-- The `MULTI` of `add`. `clock` is the server's, `now` what the caller's clock read. -/
def addQuestion (idleTtl clock now : Time) (request : InteractionRequest)
    (siblings : List InteractionId) (openMemberReserved : Bool) : Keys :=
  let expiresAt := clock + idleTtl
  let group := request.groupId
  let id := request.interactionId
  let opened := k.openIndex.remRangeByScore 0 now
  let stream := (Expiring.read clock (k.streams group)).getD [] ++ [request]
  let response := (Expiring.read clock (k.states id)).bind InteractionState.response
  let count := (Expiring.read clock (k.counts group)).getD 0 + 1
  let added := { k with
    openIndex := if openMemberReserved then opened else opened.add id request.timeoutAt
    streams := Function.update k.streams group (some ⟨stream, expiresAt⟩)
    pending := k.pending.add group request.createdAt
    pendingDeadline := k.pendingDeadline.addGT group request.timeoutAt }
  (siblings.foldl (refreshState clock expiresAt)
    (added.setState id (some ⟨⟨.pending, request, response⟩, expiresAt⟩))).setCount group
      (some ⟨count, expiresAt⟩)

/-- A question of the group is resolved; `remaining` is what the caller has counted to be left. -/
def countDown (group : GroupId) (count : Expiring ℤ) (remaining : ℤ) : Keys :=
  if remaining ≤ 0 then ((k.dropPending group).dropDeadline group).setCount group none
  else k.setCount group (some { count with value := count.value - 1 })

/-- The `MULTI` of `record_answer`. -/
def recordAnswer (clock : Time) (id : InteractionId) (group : GroupId)
    (state : Expiring InteractionState) (count : Expiring ℤ) (sensitive : Bool) (remaining : ℤ)
    (response : String) (ticketTtl : Option Time) : Keys :=
  let answered := { state.value with
    status := .answered
    response := if sensitive then state.value.response else some response }
  let expiresAt := match ticketTtl with
    | none => state.expiresAt
    | some ttl => clock + ttl
  let written := k.setState id (some ⟨answered, expiresAt⟩)
  { written with
    openIndex := k.openIndex.rem id
    replies := Function.update k.replies id (k.replies id ++ [response]) }
  |>.countDown group count remaining

/-- The `MULTI` of `prune_pending`. -/
def prunePending (id : InteractionId) (group : GroupId) (count : Expiring ℤ) (remaining : ℤ) :
    Keys :=
  { k.setState id none with openIndex := k.openIndex.rem id }.countDown group count remaining

end Keys

/-! ## The calls -/

/-- A call that resolves a question. -/
inductive Resolution where
  | answer (response : String) (ticketTtl : Option Time)
  | prune
deriving DecidableEq

/-- The writes that `WATCH` has seen. -/
structure Watch where
  stateWrites : ℕ
  countWrites : ℕ
deriving DecidableEq

inductive Stage where
  | watching
  | readingStatus (watch : Watch)
  | readingSensitive (watch : Watch)
  | readingCount (watch : Watch) (sensitive : Bool)
  | executing (watch : Watch) (sensitive : Bool) (remaining : ℤ)
deriving DecidableEq

/-- A call of `record_answer` or `prune_pending` on its way. -/
structure Resolver where
  resolution : Resolution
  id : InteractionId
  group : GroupId
  stage : Stage
deriving DecidableEq

/-- How a resolver comes out of a command. -/
inductive Outcome where
  | goesOn (stage : Stage)
  | returned (claimed : Bool)
  /-- The torn-index `RuntimeError`. -/
  | raised
deriving DecidableEq

/-- The stages of `add`. -/
inductive AddStage where
  | listing
  | purging (siblings : List InteractionId)
  | committing (siblings : List InteractionId)
deriving DecidableEq

/-- The stages of `backlog`, about the first of the groups that are left. -/
inductive BacklogStage where
  | reading
  | unlisting
  | undating
  | inspecting (entries : List InteractionRequest)
  | pruning (overdue : List InteractionRequest) (stage : Stage)
deriving DecidableEq

inductive Task where
  | idle
  | adding (request : InteractionRequest) (openMemberReserved : Bool) (stage : AddStage)
  | resolving (resolver : Resolver)
  /-- `backlog`, before its `ZRANGE`. -/
  | listing (now : Time)
  | backlog (now : Time) (groups : List GroupId) (found : List InteractionRequest)
      (stage : BacklogStage)
  | ended
deriving DecidableEq

structure World where
  keys : Keys
  clock : Time
  tasks : ℕ → Task
  /-- The questions that `add` has been called for. -/
  asked : List InteractionRequest
  /-- How often `record_answer` has returned `True` for a question. -/
  answered : InteractionId → ℕ
  /-- How often `prune_pending` has. -/
  pruned : InteractionId → ℕ
  /-- The questions for which a torn index has been reported. -/
  torn : List InteractionId

inductive Label where
  | add (n : ℕ) (request : InteractionRequest) (openMemberReserved : Bool)
  | reserveOpenSlot (now : Time) (limit : ℕ) (request : InteractionRequest)
  | resolve (n : ℕ) (resolution : Resolution) (id : InteractionId) (group : GroupId)
  | backlog (n : ℕ) (now : Time)
  | step (n : ℕ) (now : Time)
  | crash (n : ℕ)
  | tick (clock : Time)
deriving DecidableEq

namespace World

def readState (s : World) (id : InteractionId) : Option InteractionState :=
  Expiring.read s.clock (s.keys.states id)

def readCount (s : World) (group : GroupId) : Option ℤ :=
  Expiring.read s.clock (s.keys.counts group)

def readStream (s : World) (group : GroupId) : List InteractionRequest :=
  (Expiring.read s.clock (s.keys.streams group)).getD []

def goOn (s : World) (n : ℕ) (task : Task) : World :=
  { s with tasks := Function.update s.tasks n task }

/-- `EXEC` of a resolver, where what it watches is as it was. -/
def execute (s : World) (resolution : Resolution) (id : InteractionId) (group : GroupId)
    (sensitive : Bool) (remaining : ℤ) (state : Expiring InteractionState) (count : Expiring ℤ) :
    World :=
  match resolution with
  | .answer response ticketTtl => { s with
      keys := s.keys.recordAnswer s.clock id group state count sensitive remaining response
        ticketTtl
      answered := Function.update s.answered id (s.answered id + 1) }
  | .prune => { s with
      keys := s.keys.prunePending id group count remaining
      pruned := Function.update s.pruned id (s.pruned id + 1) }

/-- The next command of a resolver. -/
def resolve (s : World) (resolution : Resolution) (id : InteractionId) (group : GroupId) :
    Stage → World × Outcome
  | .watching => (s, .goesOn (.readingStatus ⟨s.keys.stateWrites id, s.keys.countWrites group⟩))
  | .readingStatus watch =>
    match s.readState id with
    | none => (s, .returned false)
    | some state =>
      if state.status = .answered then (s, .returned false)
      else match resolution with
        | .answer _ _ => (s, .goesOn (.readingSensitive watch))
        | .prune => (s, .goesOn (.readingCount watch false))
  | .readingSensitive watch =>
    (s, .goesOn (.readingCount watch ((s.readState id).any (·.request.sensitive))))
  | .readingCount watch sensitive =>
    match s.readCount group with
    | none => ({ s with torn := id :: s.torn }, .raised)
    | some count => (s, .goesOn (.executing watch sensitive (count - 1)))
  | .executing watch sensitive remaining =>
    match s.keys.states id, s.keys.counts group with
    | some state, some count =>
      -- a write of a watched key, or its expiry, is a `WatchError`
      if watch = ⟨s.keys.stateWrites id, s.keys.countWrites group⟩ ∧
          s.clock ≤ state.expiresAt ∧ s.clock ≤ count.expiresAt then
        (s.execute resolution id group sensitive remaining state count, .returned true)
      else (s, .goesOn .watching)
    | _, _ => (s, .goesOn .watching)

/-- The next command of `add`. -/
def stepAdd (idleTtl : Time) (s : World) (n : ℕ) (now : Time) (request : InteractionRequest)
    (openMemberReserved : Bool) : AddStage → World
  | .listing =>
    s.goOn n (.adding request openMemberReserved
      (.purging ((s.readStream request.groupId).map InteractionRequest.interactionId)))
  | .purging siblings =>
    { s.goOn n (.adding request openMemberReserved (.committing siblings)) with
      keys := s.keys.pendingPurge now request.groupId }
  | .committing siblings =>
    { s.goOn n .ended with
      keys := s.keys.addQuestion idleTtl s.clock now request siblings openMemberReserved }

/-- The questions of a group that `backlog` finds pending. -/
def pendingOf (s : World) (entries : List InteractionRequest) : List InteractionRequest :=
  (entries.filterMap fun entry => s.readState entry.interactionId).filterMap fun state =>
    if state.status = .pending then some state.request else none

/-- `backlog` prunes what is overdue, then goes on with the next group. -/
def pruneNext (now : Time) (groups : List GroupId) (found overdue : List InteractionRequest) :
    Task :=
  match overdue with
  | [] => .backlog now groups.tail found .reading
  | _ :: _ => .backlog now groups found (.pruning overdue .watching)

/-- The next command of `backlog`. -/
def stepBacklog (s : World) (n : ℕ) (now : Time) (groups : List GroupId)
    (found : List InteractionRequest) : BacklogStage → World
  | .reading =>
    match groups with
    | [] => s.goOn n .ended
    | group :: _ =>
      s.goOn n (.backlog now groups found
        (if s.readStream group = [] then .unlisting else .inspecting (s.readStream group)))
  | .unlisting =>
    match groups with
    | [] => s.goOn n .ended
    | group :: _ =>
      { s.goOn n (.backlog now groups found .undating) with keys := s.keys.dropPending group }
  | .undating =>
    match groups with
    | [] => s.goOn n .ended
    | group :: rest =>
      { s.goOn n (.backlog now rest found .reading) with keys := s.keys.dropDeadline group }
  | .inspecting entries =>
    let pending := s.pendingOf entries
    s.goOn n (pruneNext now groups (found ++ pending.filter fun request => now < request.timeoutAt)
      (pending.filter fun request => request.timeoutAt ≤ now))
  | .pruning overdue stage =>
    match groups, overdue with
    | group :: _, request :: rest =>
      let done := s.resolve .prune request.interactionId group stage
      done.1.goOn n (match done.2 with
        | .goesOn stage => .backlog now groups found (.pruning overdue stage)
        | .returned _ => pruneNext now groups found rest
        | .raised => .ended)
    | _, _ => s.goOn n .ended

/-- The world after a step, where there is such a step. The clocks of the callers are one with the
server's: what they read is a time that has been. -/
def next (idleTtl : Time) (s : World) : Label → Option World
  | .add n request openMemberReserved =>
    if s.tasks n = .idle ∧
        s.asked.all (fun asked => asked.interactionId ≠ request.interactionId) then
      some { s.goOn n (.adding request openMemberReserved .listing) with
        asked := request :: s.asked }
    else none
  | .reserveOpenSlot now limit request =>
    if s.clock < now then none
    else some { s with keys := (s.keys.openReserve now limit request).1 }
  | .resolve n resolution id group =>
    if s.tasks n = .idle ∧
        s.asked.any (fun asked => asked.interactionId = id ∧ asked.groupId = group) then
      some (s.goOn n (.resolving ⟨resolution, id, group, .watching⟩))
    else none
  | .backlog n now =>
    if s.tasks n = .idle ∧ now ≤ s.clock then some (s.goOn n (.listing now)) else none
  | .step n now =>
    if s.clock < now then none
    else match s.tasks n with
      | .idle | .ended => none
      | .adding request openMemberReserved stage =>
        some (s.stepAdd idleTtl n now request openMemberReserved stage)
      | .resolving resolver =>
        let done := s.resolve resolver.resolution resolver.id resolver.group resolver.stage
        some (done.1.goOn n (match done.2 with
          | .goesOn stage => .resolving { resolver with stage }
          | _ => .ended))
      | .listing now =>
        some (s.goOn n (.backlog now (s.keys.pending.range (· ≤ ·)) [] .reading))
      | .backlog now groups found stage => some (s.stepBacklog n now groups found stage)
  | .crash n => some (s.goOn n .ended)
  | .tick clock => if s.clock ≤ clock then some { s with clock := clock } else none

/-- Before the first question. -/
def start : World where
  keys := .empty
  clock := 0
  tasks _ := .idle
  asked := []
  answered _ := 0
  pruned _ := 0
  torn := []

end World

/-- Every interleaving of the calls on the store. -/
def interactions (idleTtl : Time) : System World Label where
  init s := s = .start
  step s a s' := s.next idleTtl a = some s'

end TaiSkeleton.Interactions
