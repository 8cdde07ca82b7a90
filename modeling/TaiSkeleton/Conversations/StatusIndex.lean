import TaiSkeleton.Conversations.Records
import TaiSkeleton.Lib.Run

/-!
# The status indexes

Each script leaves a record's index memberships in step with its row (`Sound.run`), so over any
run the indexes of the live statuses name exactly the records in them. The one script that does
not ask for a `delivery_status` is `bump_attempt`: on a key that is gone it leaves a hash with no
status behind. Where every attempt is counted on a key that is there, the indexes stay exact
(`exact_of_bumps`).
-/

namespace TaiSkeleton.Conversations

open Lib

variable {δ : Type}

/-- A call on one record. -/
inductive Call (δ : Type) where
  | createRecord (data : δ) (status : DeliveryStatus) (outboundIds : List String) (attempts : ℤ)
      (updatedAt : Time) (intakeToken : Option Token) (now : Time)
  | completeTurn (data : δ) (updatedAt : Time)
  | claimIntake (now : Time) (token : Token) (leaseSeconds : Time)
  | claimDelivery (now : Time) (token : Token) (leaseSeconds : Time)
  | bumpAttempt
  | markProvisional (outboundIds : List String) (attempts : ℤ) (now : Time) (token : Token)
  | markDelivered (outboundIds : List String) (attempts : ℤ) (now : Time) (token : Token)
  | markFailed (attempts : ℤ) (now : Time) (token : Token)
  | ingestReceipt (receipt : DeliveryReceipt) (now : Time)
  | deleteRecord
  | expire
deriving DecidableEq

/-- The record after a call. -/
def Call.run (settings : ConversationsSettings) : Call δ → Record δ → Record δ
  | .createRecord data status outboundIds attempts updatedAt intakeToken now =>
    Conversations.createRecord settings data status outboundIds attempts updatedAt intakeToken now
  | .completeTurn data updatedAt => fun r => (Conversations.completeTurn settings data updatedAt r).1
  | .claimIntake now token leaseSeconds =>
    fun r => (Conversations.claimIntake now token leaseSeconds r).1
  | .claimDelivery now token leaseSeconds =>
    fun r => (Conversations.claimDelivery now token leaseSeconds r).1
  | .bumpAttempt => fun r => (Conversations.bumpAttempt r).1
  | .markProvisional outboundIds attempts now token =>
    fun r => (Conversations.markProvisional settings outboundIds attempts now token r).1
  | .markDelivered outboundIds attempts now token =>
    fun r => (Conversations.markDelivered settings outboundIds attempts now token r).1
  | .markFailed attempts now token =>
    fun r => (Conversations.markFailed settings attempts now token r).1
  | .ingestReceipt receipt now => fun r => (Conversations.ingestReceipt settings receipt now r).1
  | .deleteRecord => fun r => (Conversations.deleteRecord r).1
  | .expire => Conversations.expire

/-- A step of the store: a call on the record of an id, or the pruning of a status index. -/
inductive Action (δ : Type) where
  | call (id : MessageId) (call : Call δ)
  | prune (status : DeliveryStatus) (now : Time)
deriving DecidableEq

abbrev RecordStore (δ : Type) := MessageId → Record δ

/-- The state after a step. -/
def RecordStore.next (settings : ConversationsSettings) (s : RecordStore δ) :
    Action δ → RecordStore δ
  | .call id call => Function.update s id (call.run settings (s id))
  | .prune status now => fun id => prune status now (s id)

/-- `create_record` takes an id the store holds nothing of. -/
def Fresh (s : RecordStore δ) : Action δ → Prop
  | .call id (.createRecord ..) => (s id).key = none ∧ ∀ status, (s id).index status = none
  | _ => True

/-- The record store under any calls in any order. -/
def recordStore (settings : ConversationsSettings) : System (RecordStore δ) (Action δ) where
  init s := s = fun _ => .absent
  step s a s' := Fresh s a ∧ s' = s.next settings a

/-- The indexes of the live statuses are exact, no id is in two indexes, and every key has a
status. -/
structure Exact (s : RecordStore δ) : Prop where
  indexed : ∀ id (status : DeliveryStatus), status.isTerminal = false →
    ((s id).index status ≠ none ↔ ∃ row, (s id).row? = some row ∧ row.deliveryStatus = status)
  one : ∀ id status status', (s id).index status ≠ none → (s id).index status' ≠ none →
    status = status'
  status : ∀ id, (s id).key ≠ none → ∃ row, (s id).row? = some row

/-! ## One record -/

/-- The index memberships of a record are those of its row; a terminal one may have been pruned,
or outlive the row. -/
structure Sound (r : Record δ) : Prop where
  row : r.key ≠ none → ∃ row, r.row? = some row
  live : ∀ row, r.row? = some row → row.deliveryStatus.isTerminal = false →
    r.index row.deliveryStatus = some none
  expires : ∀ row, r.row? = some row → row.expires = true → row.deliveryStatus.isTerminal = true
  named : ∀ status, r.index status ≠ none → status.isTerminal = false →
    ∃ row, r.row? = some row ∧ row.deliveryStatus = status
  one : ∀ status status', r.index status ≠ none → r.index status' ≠ none → status = status'

namespace Record

variable {r : Record δ} {row : Row δ} {score : Option Time}

@[simp] theorem row?_set : (r.set row).row? = some row := rfl

@[simp] theorem row?_move : (move row score).row? = some row := rfl

theorem key_of_row? (h : r.row? = some row) : r.key = some (.row row) := by
  unfold row? at h
  split at h
  · next row' hkey => rw [hkey, Option.some.inj h]
  · cases h

end Record

@[simp] theorem indexScore_of_live {settings : ConversationsSettings} {status : DeliveryStatus}
    {now : Time} (h : status.isTerminal = false) : indexScore settings status now = none := by
  simp [indexScore, h]

namespace Sound

variable {settings : ConversationsSettings} {r : Record δ} {row row' : Row δ} {now : Time}

theorem absent : Sound (.absent : Record δ) where
  row h := absurd rfl h
  live row h := by cases h
  expires row h := by cases h
  named status h := absurd rfl h
  one status status' h := absurd rfl h

/-- A move names the id in the index of the row's status alone. -/
theorem move (hexpires : row.expires = true → row.deliveryStatus.isTerminal = true) :
    Sound (Record.move row (indexScore settings row.deliveryStatus now)) where
  row _ := ⟨row, rfl⟩
  live row' h hlive := by
    obtain rfl := Option.some.inj h
    simp [Record.move, hlive]
  expires row' h := by
    obtain rfl := Option.some.inj h
    exact hexpires
  named status h hlive := by
    refine ⟨row, rfl, ?_⟩
    by_contra hne
    exact h (if_neg (Ne.symm hne))
  one status status' h h' := by
    have hown : ∀ st, (Record.move row (indexScore settings row.deliveryStatus now)).index st ≠
        none → st = row.deliveryStatus := by
      intro st hst
      by_contra hne
      exact hst (if_neg hne)
    rw [hown status h, hown status' h']

/-- A write that leaves the status and the TTL leaves the indexes right. -/
theorem set (h : Sound r) (hrow : r.row? = some row)
    (hstatus : row'.deliveryStatus = row.deliveryStatus) (hexpires : row'.expires = row.expires) :
    Sound (r.set row') where
  row _ := ⟨row', rfl⟩
  live row'' heq hlive := by
    obtain rfl := Option.some.inj heq
    rw [hstatus] at hlive ⊢
    exact h.live row hrow hlive
  expires row'' heq := by
    obtain rfl := Option.some.inj heq
    rw [hexpires, hstatus]
    exact h.expires row hrow
  named status hindex hlive := by
    obtain ⟨row'', heq, rfl⟩ := h.named status hindex hlive
    obtain rfl := Option.some.inj (heq.symm.trans hrow)
    exact ⟨row', rfl, hstatus⟩
  one := h.one

theorem createRecord {data : δ} {status : DeliveryStatus} {outboundIds : List String}
    {attempts : ℤ} {updatedAt : Time} {intakeToken : Option Token} (h : Sound r) :
    Sound (createRecord settings data status outboundIds attempts updatedAt intakeToken now r) := by
  unfold Conversations.createRecord
  split_ifs
  · exact h
  · exact move fun hexpires => hexpires

theorem completeTurn {data : δ} (h : Sound r) : Sound (completeTurn settings data now r).1 := by
  unfold Conversations.completeTurn
  cases hrow : r.row? with
  | none => exact h
  | some row =>
    dsimp only
    split_ifs with hstatus
    · exact h
    · refine move fun hexpires => ?_
      -- a record at intake carries no TTL
      have := h.expires row hrow hexpires
      rw [not_not.mp hstatus] at this
      exact absurd this (by decide)

theorem claimIntake {token : Token} {leaseSeconds : Time} (h : Sound r) :
    Sound (claimIntake now token leaseSeconds r).1 := by
  unfold Conversations.claimIntake
  cases hrow : r.row? with
  | none => exact h
  | some row =>
    dsimp only
    split_ifs
    · exact h
    · exact h
    · exact h.set hrow rfl rfl

theorem claimDelivery {token : Token} {leaseSeconds : Time} (h : Sound r) :
    Sound (claimDelivery now token leaseSeconds r).1 := by
  unfold Conversations.claimDelivery
  cases hrow : r.row? with
  | none => exact h
  | some row =>
    dsimp only
    split_ifs
    · exact h
    · exact h
    · exact h
    · exact h.set hrow rfl rfl

/-- The count of attempts is kept in a row that is there. -/
theorem bumpAttempt (h : Sound r) (hkey : r.key ≠ none) : Sound (bumpAttempt r).1 := by
  obtain ⟨row, hrow⟩ := h.row hkey
  unfold Conversations.bumpAttempt
  rw [Record.key_of_row? hrow]
  exact h.set hrow rfl rfl

theorem markProvisional {outboundIds : List String} {attempts : ℤ} {token : Token} (h : Sound r) :
    Sound (markProvisional settings outboundIds attempts now token r).1 := by
  unfold Conversations.markProvisional
  cases hrow : r.row? with
  | none => exact h
  | some row =>
    dsimp only
    split_ifs with hterminal
    · exact h
    · exact h
    · refine move fun hexpires => ?_
      exact absurd (h.expires row hrow hexpires) hterminal

theorem markDelivered {outboundIds : List String} {attempts : ℤ} {token : Token} (h : Sound r) :
    Sound (markDelivered settings outboundIds attempts now token r).1 := by
  unfold Conversations.markDelivered
  cases hrow : r.row? with
  | none => exact h
  | some row =>
    dsimp only
    split_ifs
    · exact h
    · exact h
    · exact h
    · exact move fun _ => rfl

theorem markFailed {attempts : ℤ} {token : Token} (h : Sound r) :
    Sound (markFailed settings attempts now token r).1 := by
  unfold Conversations.markFailed
  cases hrow : r.row? with
  | none => exact h
  | some row =>
    dsimp only
    split_ifs
    · exact h
    · exact h
    · exact h
    · exact move fun _ => rfl

theorem ingestReceipt {receipt : DeliveryReceipt} (h : Sound r) :
    Sound (ingestReceipt settings receipt now r).1 := by
  unfold Conversations.ingestReceipt
  cases hrow : r.row? with
  | none => exact h
  | some row =>
    dsimp only
    split_ifs
    · exact h
    · exact h
    · exact h
    · refine move fun _ => ?_
      cases receipt <;> rfl

/-- Only a terminal row expires, and no live index names it. -/
theorem expire (h : Sound r) : Sound (expire r) := by
  unfold Conversations.expire
  cases hrow : r.row? with
  | none => exact h
  | some row =>
    dsimp only
    split_ifs with hexpires
    · have hterminal := h.expires row hrow hexpires
      refine ⟨fun hkey => absurd rfl hkey, fun row' heq => ?_, fun row' heq => ?_, ?_, h.one⟩
      · cases heq
      · cases heq
      · intro status hindex hlive
        obtain ⟨row', heq, rfl⟩ := h.named status hindex hlive
        obtain rfl := Option.some.inj (heq.symm.trans hrow)
        rw [hterminal] at hlive
        cases hlive
    · exact h

/-- The members of a live index carry no expiry, so no pruning reaches them. -/
theorem prune {status : DeliveryStatus} (h : Sound r) : Sound (prune status now r) := by
  have hsub : ∀ st, (Conversations.prune status now r).index st ≠ none → r.index st ≠ none := by
    intro st hst hnone
    exact hst (by simp [Conversations.prune, hnone])
  refine ⟨h.row, ?_, h.expires, fun st hst => h.named st (hsub st hst), fun st st' hst hst' =>
    h.one st st' (hsub st hst) (hsub st' hst')⟩
  intro row hrow hlive
  have hindex : r.index row.deliveryStatus = some none := h.live row hrow hlive
  simp [Conversations.prune, hindex]

theorem run {call : Call δ} (h : Sound r) (hbump : call = .bumpAttempt → r.key ≠ none) :
    Sound (call.run settings r) := by
  cases call with
  | createRecord data status outboundIds attempts updatedAt intakeToken now =>
    exact h.createRecord
  | completeTurn data updatedAt => exact h.completeTurn
  | claimIntake now token leaseSeconds => exact h.claimIntake
  | claimDelivery now token leaseSeconds => exact h.claimDelivery
  | bumpAttempt => exact h.bumpAttempt (hbump rfl)
  | markProvisional outboundIds attempts now token => exact h.markProvisional
  | markDelivered outboundIds attempts now token => exact h.markDelivered
  | markFailed attempts now token => exact h.markFailed
  | ingestReceipt receipt now => exact h.ingestReceipt
  | deleteRecord => exact absent
  | expire => exact h.expire

end Sound

/-! ## Every run -/

/-- An attempt is counted on a key that is still there. -/
def BumpsPresent (s : RecordStore δ) (a : Action δ) : Prop :=
  ∀ id, a = .call id .bumpAttempt → (s id).key ≠ none

/-- Every record is sound. -/
def AllSound (s : RecordStore δ) : Prop := ∀ id, Sound (s id)

theorem AllSound.next {settings : ConversationsSettings} {s : RecordStore δ} {a : Action δ}
    (h : AllSound s) (hbump : BumpsPresent s a) : AllSound (s.next settings a) := by
  intro id
  cases a with
  | call id' call =>
    show Sound (Function.update s id' (call.run settings (s id')) id)
    by_cases hid : id = id'
    · subst hid
      rw [Function.update_self]
      exact (h id).run fun hcall => hbump id (by rw [hcall])
    · rw [Function.update_of_ne hid]
      exact h id
  | prune status now => exact (h id).prune

/-- The indexes are exact in every state of a run that counts attempts only on keys that are
there. -/
theorem exact_of_bumps {settings : ConversationsSettings} {s : RecordStore δ}
    (h : ((recordStore settings).when BumpsPresent).Reachable s) : Exact s := by
  have hsound : AllSound s := by
    refine h.invariant ?_ ?_
    · rintro s rfl id
      exact .absent
    · rintro s a s' hs ⟨hbump, -, rfl⟩
      exact hs.next hbump
  refine ⟨fun id status hlive => ⟨fun hindex => (hsound id).named status hindex hlive, ?_⟩,
    fun id => (hsound id).one, fun id => (hsound id).row⟩
  rintro ⟨row, hrow, rfl⟩
  rw [(hsound id).live row hrow hlive]
  exact Option.some_ne_none _

/-- A record is accepted, completed and claimed for its first attempt. -/
theorem exact_first_attempt : ∃ s : RecordStore String,
    ((recordStore defaultSettings).when BumpsPresent).Reachable s ∧
      (s 7).key ≠ none ∧ Exact s := by
  have first : ((recordStore (δ := String) defaultSettings).when BumpsPresent).Reachable
    fun _ => .absent := .of_init rfl
  have accepted := first.take (.call 7 (.createRecord "hi" .accepted [] 0 0 (some 1) 0))
    ⟨fun _ h => (by cases h), ⟨rfl, fun _ => rfl⟩, rfl⟩
  have completed := accepted.take (.call 7 (.completeTurn "hello" 5))
    ⟨fun _ h => (by cases h), trivial, rfl⟩
  have claimed := completed.take (.call 7 (.claimDelivery 6 2 120))
    ⟨fun _ h => (by cases h), trivial, rfl⟩
  have bumped := claimed.take (.call 7 .bumpAttempt)
    ⟨fun id h => (by cases h; exact Option.some_ne_none _), trivial, rfl⟩
  exact ⟨_, bumped, Option.some_ne_none _, exact_of_bumps bumped⟩

/-- A worker that claimed a record counts its attempt after another one has taken the record
over, delivered it, and its retention has run out. -/
theorem late_bump_not_exact : ∃ s : RecordStore String,
    (recordStore defaultSettings).Reachable s ∧ (s 7).key = some (.attemptsOnly 1) ∧
      ¬ Exact s := by
  have first : (recordStore (δ := String) defaultSettings).Reachable fun _ => .absent :=
    .of_init rfl
  have accepted := first.take (.call 7 (.createRecord "hi" .accepted [] 0 0 (some 1) 0))
    ⟨⟨rfl, fun _ => rfl⟩, rfl⟩
  have completed := accepted.take (.call 7 (.completeTurn "hello" 5)) ⟨trivial, rfl⟩
  have claimed := completed.take (.call 7 (.claimDelivery 6 2 120)) ⟨trivial, rfl⟩
  have takenOver := claimed.take (.call 7 (.claimDelivery 200 3 120)) ⟨trivial, rfl⟩
  have counted := takenOver.take (.call 7 .bumpAttempt) ⟨trivial, rfl⟩
  have delivered := counted.take (.call 7 (.markDelivered [] 1 201 3)) ⟨trivial, rfl⟩
  have expired := delivered.take (.call 7 .expire) ⟨trivial, rfl⟩
  have late := expired.take (.call 7 .bumpAttempt) ⟨trivial, rfl⟩
  refine ⟨_, late, rfl, fun hexact => ?_⟩
  obtain ⟨row, hrow⟩ := hexact.status 7 (Option.some_ne_none _)
  cases hrow

end TaiSkeleton.Conversations
