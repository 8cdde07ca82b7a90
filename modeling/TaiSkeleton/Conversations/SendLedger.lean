import TaiSkeleton.Conversations.ApiDelivery

/-!
# The send ledger

What the ledger says of an answer: the lengths of the chunks that are out, so that a resume, under
whatever cap the channel has by then, starts behind them. With it, what the scripts of the record
store leave of a record that is to be delivered under a worker's claim.
-/

namespace TaiSkeleton.Conversations

open Lib

/-! ## What the ledger describes -/

/-- The pieces of a text of given lengths, in order. -/
def segments : Text → List ℕ → List Text
  | _, [] => []
  | text, n :: lengths => text.take n :: segments (text.drop n) lengths

theorem segments_concat {text : Text} {lengths : List ℕ} {n : ℕ} :
    segments text (lengths ++ [n]) = segments text lengths ++ [(text.drop lengths.sum).take n] := by
  induction lengths generalizing text with
  | nil => simp [segments]
  | cons m lengths ih =>
    show text.take m :: segments (text.drop m) (lengths ++ [n]) = _
    rw [ih, List.sum_cons, List.drop_drop]
    rfl

/-- How many characters of the answer are ledgered. -/
def charsSent (ledger : List SentChunk) : ℕ := (ledger.map SentChunk.chars).sum

/-- The ledgered pieces of the answer that were messages: a blank one is not sent. -/
def spoken (answer : Text) (ledger : List SentChunk) : List Text :=
  (segments answer (ledger.map SentChunk.chars)).filter fun piece => !isBlank piece

@[simp] theorem charsSent_concat {ledger : List SentChunk} {entry : SentChunk} :
    charsSent (ledger ++ [entry]) = charsSent ledger + entry.chars := by
  simp [charsSent]

theorem spoken_concat {answer : Text} {ledger : List SentChunk} {entry : SentChunk} :
    spoken answer (ledger ++ [entry]) = spoken answer ledger ++
      [(answer.drop (charsSent ledger)).take entry.chars].filter fun piece => !isBlank piece := by
  unfold spoken charsSent
  rw [List.map_append, List.map_singleton, segments_concat, List.filter_append]

/-- The chunks are what is left of the answer. -/
def Remaining (answer : Text) (ledger : List SentChunk) (chunks : List Text) : Prop :=
  chunks.flatten = answer.drop (charsSent ledger) ∧ ∀ chunk ∈ chunks, chunk ≠ []

theorem Remaining.head {answer chunk : Text} {ledger : List SentChunk} {rest : List Text}
    (h : Remaining answer ledger (chunk :: rest)) :
    (answer.drop (charsSent ledger)).take chunk.length = chunk := by
  rw [← h.1, List.flatten_cons, List.take_left']
  rfl

theorem Remaining.tail {answer chunk : Text} {ledger : List SentChunk} {rest : List Text}
    (ids : List String) (h : Remaining answer ledger (chunk :: rest)) :
    Remaining answer (ledger ++ [⟨chunk.length, ids⟩]) rest := by
  refine ⟨?_, fun chunk' hmem => h.2 chunk' (List.mem_cons_of_mem _ hmem)⟩
  rw [charsSent_concat, ← List.drop_drop, ← h.1, List.flatten_cons, List.drop_left']
  rfl

theorem Remaining.length_le {answer chunk : Text} {ledger : List SentChunk} {rest : List Text}
    (h : Remaining answer ledger (chunk :: rest)) :
    charsSent ledger + chunk.length ≤ answer.length ∧ 0 < chunk.length := by
  have hlength := congrArg List.length h.1
  rw [List.flatten_cons, List.length_append, List.length_drop] at hlength
  have hpos : 0 < chunk.length := List.length_pos_of_ne_nil (h.2 chunk (List.mem_cons_self))
  omega

/-! ## The record under delivery -/

/-- The record is to be delivered, with this answer. -/
def Pending (r : Record Content) (row : Row Content) (answer : Text) : Prop :=
  r.row? = some row ∧ row.deliveryStatus = .pendingDelivery ∧ row.data.answer = some answer

/-- The record is to be delivered, under the claim of this worker. -/
def Holds (r : Record Content) (token : Token) (answer : Text) : Prop :=
  ∃ row, Pending r row answer ∧ row.claim.map Lease.token = some token

/-- A script that takes no claim and completes no turn: the row keeps its content, and its status
with its claim, or it loses the claim and has this status now. -/
def Kept (status : DeliveryStatus) (r r' : Record Content) : Prop :=
  ∀ row', r'.row? = some row' → ∃ row, r.row? = some row ∧ row'.data = row.data ∧
    (row'.deliveryStatus = row.deliveryStatus ∧ row'.claim = row.claim ∨
      row'.claim = none ∧ row'.deliveryStatus = status)

/-- A status that follows the delivery. -/
def DeliveryStatus.isAfter : DeliveryStatus → Bool
  | .accepted | .pendingDelivery => false
  | _ => true

namespace Kept

variable {status : DeliveryStatus} {r r' : Record Content} {token : Token} {answer : Text}
  {row' : Row Content}

theorem refl (status : DeliveryStatus) (r : Record Content) : Kept status r r :=
  fun row hrow => ⟨row, hrow, rfl, .inl ⟨rfl, rfl⟩⟩

theorem of_eq (status : DeliveryStatus) (h : r' = r) : Kept status r r' := h ▸ refl status r

theorem past (h : Kept status r r') (hafter : status.isAfter = true) (hpast : Past r) :
    Past r' := by
  intro row' hrow'
  obtain ⟨row, hrow, -, ⟨hstatus, -⟩ | ⟨-, hstatus⟩⟩ := h row' hrow'
  · rw [hstatus]
    exact hpast row hrow
  · rintro heq
    rw [← hstatus, heq] at hafter
    cases hafter

theorem pending (h : Kept status r r') (hafter : status.isAfter = true)
    (hp : Pending r' row' answer) : ∃ row, Pending r row answer ∧ row'.claim = row.claim := by
  obtain ⟨hrow', hstatus', hanswer⟩ := hp
  obtain ⟨row, hrow, hdata, ⟨hstatus, hclaim⟩ | ⟨-, hstatus⟩⟩ := h row' hrow'
  · exact ⟨row, ⟨hrow, hstatus ▸ hstatus', hdata ▸ hanswer⟩, hclaim⟩
  · rw [← hstatus, hstatus'] at hafter
    cases hafter

theorem holds (h : Kept status r r') (hafter : status.isAfter = true)
    (hh : Holds r' token answer) : Holds r token answer := by
  obtain ⟨row', hp, hclaim'⟩ := hh
  obtain ⟨row, hp, hclaim⟩ := h.pending hafter hp
  exact ⟨row, hp, hclaim ▸ hclaim'⟩

/-- The row was there. -/
theorem row?_eq_none (h : Kept status r r') (hnone : r.row? = none) : r'.row? = none := by
  cases hrow' : r'.row? with
  | none => rfl
  | some row' =>
    obtain ⟨row, hrow, -⟩ := h row' hrow'
    rw [hnone] at hrow
    cases hrow

end Kept

section scripts

variable {settings : ConversationsSettings} {r : Record Content} {now : Time} {token : Token}
  {status : DeliveryStatus}

theorem kept_claimIntake {leaseSeconds : Time} (status : DeliveryStatus) :
    Kept status r (claimIntake now token leaseSeconds r).1 := by
  unfold claimIntake
  cases hrow : r.row? with
  | none => exact .refl _ _
  | some row =>
    dsimp only
    split_ifs
    · exact .refl _ _
    · exact .refl _ _
    · rintro row' ⟨⟩
      exact ⟨row, hrow, rfl, .inl ⟨rfl, rfl⟩⟩

theorem kept_bumpAttempt (status : DeliveryStatus) : Kept status r (bumpAttempt r).1 := by
  unfold bumpAttempt
  cases hkey : r.key with
  | none =>
    rintro row' ⟨⟩
  | some stored =>
    cases stored with
    | row row =>
      rintro row' ⟨⟩
      exact ⟨row, by simp [Record.row?, hkey], rfl, .inl ⟨rfl, rfl⟩⟩
    | attemptsOnly attempts =>
      rintro row' ⟨⟩

theorem kept_markProvisional {outboundIds : List String} {attempts : ℤ} :
    Kept .provisional r (markProvisional settings outboundIds attempts now token r).1 := by
  unfold markProvisional
  cases hrow : r.row? with
  | none => exact .refl _ _
  | some row =>
    dsimp only
    split_ifs
    · exact .refl _ _
    · exact .refl _ _
    · rintro row' ⟨⟩
      exact ⟨row, hrow, rfl, .inr ⟨rfl, rfl⟩⟩

theorem kept_markDelivered {outboundIds : List String} {attempts : ℤ} :
    Kept .delivered r (markDelivered settings outboundIds attempts now token r).1 := by
  unfold markDelivered
  cases hrow : r.row? with
  | none => exact .refl _ _
  | some row =>
    dsimp only
    split_ifs
    · exact .refl _ _
    · exact .refl _ _
    · exact .refl _ _
    · rintro row' ⟨⟩
      exact ⟨row, hrow, rfl, .inr ⟨rfl, rfl⟩⟩

theorem kept_markFailed {attempts : ℤ} :
    Kept .failed r (markFailed settings attempts now token r).1 := by
  unfold markFailed
  cases hrow : r.row? with
  | none => exact .refl _ _
  | some row =>
    dsimp only
    split_ifs
    · exact .refl _ _
    · exact .refl _ _
    · exact .refl _ _
    · rintro row' ⟨⟩
      exact ⟨row, hrow, rfl, .inr ⟨rfl, rfl⟩⟩

theorem kept_ingestReceipt {receipt : DeliveryReceipt} :
    Kept receipt.target r (ingestReceipt settings receipt now r).1 := by
  unfold ingestReceipt
  cases hrow : r.row? with
  | none => exact .refl _ _
  | some row =>
    dsimp only
    split_ifs
    · exact .refl _ _
    · exact .refl _ _
    · exact .refl _ _
    · rintro row' ⟨⟩
      exact ⟨row, hrow, rfl, .inr ⟨rfl, rfl⟩⟩

theorem kept_expire (status : DeliveryStatus) : Kept status r (expire r) := by
  unfold expire
  cases hrow : r.row? with
  | none => exact .refl _ _
  | some row =>
    dsimp only
    split_ifs
    · rintro row' ⟨⟩
    · exact .refl _ _

theorem claim_createRecord {data : Content} {outboundIds : List String} {attempts : ℤ}
    {intakeToken : Option Token} {row : Row Content} (hnone : r.row? = none)
    (h : (createRecord settings data status outboundIds attempts now intakeToken now r).row? =
      some row) : row.claim = none := by
  unfold createRecord at h
  split_ifs at h
  · rw [hnone] at h
    cases h
  · obtain rfl := Option.some.inj h
    rfl

/-- A provisional or failed write that is made leaves no record that is to be delivered. -/
theorem status_of_markProvisional {outboundIds : List String} {attempts : ℤ}
    (h : (markProvisional settings outboundIds attempts now token r).2 = 1) {row' : Row Content}
    (hrow' : (markProvisional settings outboundIds attempts now token r).1.row? = some row') :
    row'.deliveryStatus = .provisional := by
  revert h hrow'
  unfold markProvisional
  cases hrow : r.row? with
  | none => simp
  | some row =>
    dsimp only
    split_ifs
    · simp
    · simp
    · rintro - ⟨⟩
      rfl

theorem status_of_markFailed {attempts : ℤ}
    (h : (markFailed settings attempts now token r).2 = 1) {row' : Row Content}
    (hrow' : (markFailed settings attempts now token r).1.row? = some row') :
    row'.deliveryStatus = .failed := by
  revert h hrow'
  unfold markFailed
  cases hrow : r.row? with
  | none => simp
  | some row =>
    dsimp only
    split_ifs
    · simp
    · simp
    · simp
    · rintro - ⟨⟩
      rfl

/-- A record that is delivered, failed or shed does not become provisional. -/
theorem status_before_markProvisional {outboundIds : List String} {attempts : ℤ}
    {row row' : Row Content} (hrow : r.row? = some row) (hne : row.deliveryStatus ≠ .provisional)
    (hrow' : (markProvisional settings outboundIds attempts now token r).1.row? = some row')
    (hstatus' : row'.deliveryStatus = .provisional) : row.deliveryStatus.isTerminal = false := by
  unfold markProvisional at hrow'
  rw [hrow] at hrow'
  dsimp only at hrow'
  split_ifs at hrow' with hterminal hforeign
  · obtain rfl := Option.some.inj (hrow.symm.trans hrow')
    exact absurd hstatus' hne
  · simpa using hterminal
  · simpa using hterminal

theorem completeTurn_eq_one {data : Content} (h : (completeTurn settings data now r).2 = 1) :
    ∃ row row', r.row? = some row ∧ row.deliveryStatus = .accepted ∧
      (completeTurn settings data now r).1.row? = some row' ∧
      row'.deliveryStatus = .pendingDelivery ∧ row'.claim = row.claim := by
  revert h
  unfold completeTurn
  cases hrow : r.row? with
  | none => simp
  | some row =>
    dsimp only
    split_ifs with hstatus
    · simp
    · exact fun _ => ⟨row, _, rfl, not_not.mp hstatus, rfl, rfl, rfl⟩

theorem completeTurn_ne_one {data : Content} (h : (completeTurn settings data now r).2 ≠ 1) :
    (completeTurn settings data now r).1 = r := by
  revert h
  unfold completeTurn
  cases r.row? with
  | none => simp
  | some row =>
    dsimp only
    split_ifs <;> simp

end scripts

end TaiSkeleton.Conversations
