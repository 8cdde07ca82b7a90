import Mathlib.Algebra.Order.Ring.Int

/-!
# The answer records

A record is a Redis hash under its `message_id`, with its membership in the six status indexes.
Every transition is one Lua script: it reads the row, answers a code, and on `1` has written the
row and moved the id to the index of the new status. Clock readings are integers, in units fine
enough to hold them; a `claim` is `token:expiry`, or blank.
-/

namespace TaiSkeleton.Conversations

abbrev Time := ℤ

/-- A worker's `uuid4` token. -/
abbrev Token := ℕ

abbrev MessageId := ℕ

inductive DeliveryStatus where
  | accepted
  | pendingDelivery
  | provisional
  | delivered
  | failed
  | shed
deriving DecidableEq

/-- `TERMINAL_STATUSES` -/
def DeliveryStatus.isTerminal : DeliveryStatus → Bool
  | .delivered | .failed | .shed => true
  | _ => false

inductive DeliveryReceipt where
  | delivered
  | failed
deriving DecidableEq

/-- The status a receipt moves a provisional record to. -/
def DeliveryReceipt.target : DeliveryReceipt → DeliveryStatus
  | .delivered => .delivered
  | .failed => .failed

/-- What the record store reads of `ConversationsSettings`. -/
structure ConversationsSettings where
  answerRetentionTtlSeconds : Time
  deliveryGraceSeconds : Time
  intakeClaimLeaseSeconds : Time
deriving DecidableEq

/-- The settings of a deployment that keeps the defaults. -/
def defaultSettings : ConversationsSettings where
  answerRetentionTtlSeconds := 30 * 86400
  deliveryGraceSeconds := 3600
  intakeClaimLeaseSeconds := 120

/-- A claim that is not blank. -/
structure Lease where
  token : Token
  expiry : Time
deriving DecidableEq

/-- `_foreign_lease_guard`: a different worker holds a live lease. -/
def foreignLease (claim : Option Lease) (now : Time) (token : Token) : Bool :=
  match claim with
  | none => false
  | some lease => lease.token != token && decide (now < lease.expiry)

variable {δ : Type}

/-- The hash of a record. The content blob is opaque to the store; `expires` is the retention
TTL on the key. -/
structure Row (δ : Type) where
  data : δ
  deliveryStatus : DeliveryStatus
  outboundIds : List String
  attempts : ℤ
  claim : Option Lease
  graceDeadline : Option Time
  updatedAt : Time
  intakeClaim : Option Lease
  expires : Bool
deriving DecidableEq

/-- What a record key holds: a record's row, or a hash of nothing but a count of attempts. -/
inductive Stored (δ : Type) where
  | row (row : Row δ)
  | attemptsOnly (attempts : ℤ)
deriving DecidableEq

/-- A record's key, and the score of its id in each status index; `none` for the score is
`+inf`. -/
structure Record (δ : Type) where
  key : Option (Stored δ)
  index : DeliveryStatus → Option (Option Time)

namespace Record

/-- An id the store has never seen. -/
def absent : Record δ := ⟨none, fun _ => none⟩

/-- The row, where the key has a `delivery_status`. -/
def row? (r : Record δ) : Option (Row δ) :=
  match r.key with
  | some (.row row) => some row
  | _ => none

/-- `HSET` of fields that leave the status. -/
def set (r : Record δ) (row : Row δ) : Record δ := { r with key := some (.row row) }

/-- `HSET` and `_reindex`: exactly the index of the row's status names the id. -/
def move (row : Row δ) (score : Option Time) : Record δ where
  key := some (.row row)
  index status := if status = row.deliveryStatus then some score else none

end Record

/-- `_index_score` -/
def indexScore (settings : ConversationsSettings) (status : DeliveryStatus) (now : Time) :
    Option Time :=
  if status.isTerminal then some (now + settings.answerRetentionTtlSeconds) else none

/-! ## The scripts -/

section scripts

variable (settings : ConversationsSettings)

/-- `create_record`. Only a record at intake is created under an intake lease, and it always
is. -/
def createRecord (data : δ) (status : DeliveryStatus) (outboundIds : List String) (attempts : ℤ)
    (updatedAt : Time) (intakeToken : Option Token) (now : Time) (r : Record δ) : Record δ :=
  if decide (status = .accepted) != intakeToken.isSome then r
  else .move
    { data, deliveryStatus := status, outboundIds, attempts, claim := none
      graceDeadline := none, updatedAt
      intakeClaim := intakeToken.map fun token => ⟨token, now + settings.intakeClaimLeaseSeconds⟩
      expires := status.isTerminal }
    (indexScore settings status now)

/-- `complete_turn` -/
def completeTurn (data : δ) (updatedAt : Time) (r : Record δ) : Record δ × ℤ :=
  match r.row? with
  | none => (r, -1)
  | some row =>
    if row.deliveryStatus ≠ .accepted then (r, 0)
    else
      (.move { row with data, deliveryStatus := .pendingDelivery, updatedAt, intakeClaim := none }
        (indexScore settings .pendingDelivery updatedAt), 1)

/-- `claim_intake` -/
def claimIntake (now : Time) (token : Token) (leaseSeconds : Time) (r : Record δ) :
    Record δ × ℤ :=
  match r.row? with
  | none => (r, -1)
  | some row =>
    if row.deliveryStatus ≠ .accepted then (r, -2)
    else if foreignLease row.intakeClaim now token then (r, 0)
    else (r.set { row with intakeClaim := some ⟨token, now + leaseSeconds⟩ }, 1)

/-- `claim_delivery` -/
def claimDelivery (now : Time) (token : Token) (leaseSeconds : Time) (r : Record δ) :
    Record δ × ℤ :=
  match r.row? with
  | none => (r, -1)
  | some row =>
    if row.deliveryStatus = .accepted then (r, -2)
    else if row.deliveryStatus ≠ .pendingDelivery then (r, 0)
    else if foreignLease row.claim now token then (r, 0)
    else (r.set { row with claim := some ⟨token, now + leaseSeconds⟩ }, 1)

/-- `bump_attempt`: a bare `HINCRBY`, which makes the key where there is none. -/
def bumpAttempt (r : Record δ) : Record δ × ℤ :=
  match r.key with
  | none => ({ r with key := some (.attemptsOnly 1) }, 1)
  | some (.attemptsOnly attempts) =>
    ({ r with key := some (.attemptsOnly (attempts + 1)) }, attempts + 1)
  | some (.row row) => (r.set { row with attempts := row.attempts + 1 }, row.attempts + 1)

/-- `mark_provisional` -/
def markProvisional (outboundIds : List String) (attempts : ℤ) (now : Time) (token : Token)
    (r : Record δ) : Record δ × ℤ :=
  match r.row? with
  | none => (r, -1)
  | some row =>
    if row.deliveryStatus.isTerminal then (r, 0)
    else if foreignLease row.claim now token then (r, -3)
    else
      (.move { row with
          deliveryStatus := .provisional, outboundIds, attempts, updatedAt := now, claim := none
          graceDeadline := some (now + settings.deliveryGraceSeconds) }
        (indexScore settings .provisional now), 1)

/-- `mark_delivered` -/
def markDelivered (outboundIds : List String) (attempts : ℤ) (now : Time) (token : Token)
    (r : Record δ) : Record δ × ℤ :=
  match r.row? with
  | none => (r, -1)
  | some row =>
    if row.deliveryStatus = .failed ∨ row.deliveryStatus = .shed then (r, -2)
    else if row.deliveryStatus = .delivered then (r, 0)
    else if foreignLease row.claim now token then (r, -3)
    else
      (.move { row with
          deliveryStatus := .delivered, outboundIds, attempts, updatedAt := now, claim := none
          graceDeadline := none, expires := true }
        (indexScore settings .delivered now), 1)

/-- `mark_failed` -/
def markFailed (attempts : ℤ) (now : Time) (token : Token) (r : Record δ) : Record δ × ℤ :=
  match r.row? with
  | none => (r, -1)
  | some row =>
    if row.deliveryStatus = .delivered ∨ row.deliveryStatus = .shed ∨
        row.deliveryStatus = .provisional then (r, -2)
    else if row.deliveryStatus = .failed then (r, 0)
    else if foreignLease row.claim now token then (r, -3)
    else
      (.move { row with
          deliveryStatus := .failed, attempts, updatedAt := now, claim := none
          graceDeadline := none, expires := true }
        (indexScore settings .failed now), 1)

/-- `ingest_receipt` -/
def ingestReceipt (receipt : DeliveryReceipt) (now : Time) (r : Record δ) : Record δ × ℤ :=
  match r.row? with
  | none => (r, -1)
  | some row =>
    if row.deliveryStatus = receipt.target then (r, 0)
    else if row.deliveryStatus.isTerminal then (r, -2)
    else if row.deliveryStatus ≠ .provisional then (r, -3)
    else
      (.move { row with
          deliveryStatus := receipt.target, updatedAt := now, claim := none
          graceDeadline := none, expires := true }
        (indexScore settings receipt.target now), 1)

/-- `delete_record`, and `_drop_orphan` -/
def deleteRecord (r : Record δ) : Record δ × Bool := (.absent, r.key.isSome)

/-- The retention TTL of a key has run out. -/
def expire (r : Record δ) : Record δ :=
  match r.row? with
  | some row => if row.expires then { r with key := none } else r
  | none => r

/-- `ZREMRANGEBYSCORE` of one status index up to `now`. -/
def prune (status : DeliveryStatus) (now : Time) (r : Record δ) : Record δ :=
  { r with index := fun st =>
      match r.index st with
      | some (some score) => if st = status ∧ score ≤ now then none else some (some score)
      | other => other }

end scripts

end TaiSkeleton.Conversations
