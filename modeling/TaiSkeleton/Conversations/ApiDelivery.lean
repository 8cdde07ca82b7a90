import TaiSkeleton.Conversations.LifeCycle

/-!
# One delivery of an API answer

The answer of an API record goes out in the `200` of a waiting call or in an acknowledged
callback. Workers are assumed to POST, and to write the status that follows, under a lease that
has not run out (`LeaseHeld`). Then a worker with a live lease is the one the record's claim
names (`ApiInv.holder`), and what is delivered is delivered once.
-/

namespace TaiSkeleton.Conversations

open Lib

/-- The task still works on the record under its claim. -/
def Task.drives : Task → Bool
  | .clearing => false
  | task => task.hasClaimed

/-- The callback has been acknowledged, and the delivered write is to follow. -/
def Task.acked : Task → Bool
  | .posted _ status => acknowledges status
  | _ => false

/-- Clocks do not run ahead; a worker POSTs, and writes an acknowledged record delivered, while
the lease it last obtained is unexpired, and does not die in between. -/
def LeaseHeld (s : World) : Label → Prop
  | .run token now _ => now ≤ s.clock ∧
    match s.tasks token with
    | .posting _ => ∃ expiry, s.leases token = some expiry ∧ s.clock < expiry
    | _ => True
  | .tick now => ∀ token, (s.tasks token).acked = true →
    ∃ expiry, s.leases token = some expiry ∧ now < expiry
  | .crash token => (s.tasks token).acked = false
  | _ => True

/-- The deliveries under that assumption. -/
def leasedDelivery (settings : DeliverySettings) : System World Label :=
  (delivery settings).when LeaseHeld

/-- A worker that drives the record under a live lease. -/
def Live (s : World) (token : Token) (expiry : Time) : Prop :=
  (s.tasks token).drives = true ∧ s.leases token = some expiry ∧ s.clock < expiry

structure ApiInv (s : World) : Prop where
  fresh : s.created = false →
    s.record.row? = none ∧ (∀ token, s.leases token = none) ∧ s.acknowledged + s.answers = 0
  /-- The claim of the record is that of a live worker. -/
  holder : ∀ token expiry row, Live s token expiry → s.record.row? = some row →
    row.deliveryStatus = .pendingDelivery ∧ row.claim = some ⟨token, expiry⟩
  unique : ∀ token token' expiry expiry', Live s token expiry → Live s token' expiry' →
    token = token'
  acked : ∀ token, (s.tasks token).acked = true → ∃ expiry, Live s token expiry
  once : s.acknowledged + s.answers ≤ 1
  /-- After the delivery only the worker that is about to write it down is live. -/
  after : s.acknowledged + s.answers = 1 → ∀ token expiry, Live s token expiry →
    (s.tasks token).acked = true
  written : s.acknowledged + s.answers = 1 → (∀ token, (s.tasks token).acked = false) →
    ∀ row, s.record.row? = some row → row.deliveryStatus = .delivered

/-! ## The writes that answer 1 -/

section scripts

variable {δ : Type} {settings : ConversationsSettings} {r : Record δ} {now : Time} {token : Token}

/-- A foreign live lease. -/
def Foreign (r : Record δ) (now : Time) (token : Token) : Prop :=
  ∃ row, r.row? = some row ∧ foreignLease row.claim now token = true

theorem claimDelivery_eq_one {leaseSeconds : Time}
    (h : (claimDelivery now token leaseSeconds r).2 = 1) :
    ¬ Foreign r now token ∧ ∃ row, r.row? = some row ∧ row.deliveryStatus = .pendingDelivery ∧
      (claimDelivery now token leaseSeconds r).1.row? =
        some { row with claim := some ⟨token, now + leaseSeconds⟩ } := by
  revert h
  unfold claimDelivery Foreign
  cases hrow : r.row? with
  | none => simp
  | some row =>
    dsimp only
    split_ifs with hintake hpending hforeign
    · simp
    · simp
    · simp
    · exact fun _ => ⟨by simp [hforeign], row, rfl, not_not.mp hpending, rfl⟩

theorem claimDelivery_ne_one {leaseSeconds : Time}
    (h : (claimDelivery now token leaseSeconds r).2 ≠ 1) :
    (claimDelivery now token leaseSeconds r).1 = r := by
  revert h
  unfold claimDelivery
  cases r.row? with
  | none => simp
  | some row =>
    dsimp only
    split_ifs <;> simp

theorem markProvisional_eq_one {outboundIds : List String} {attempts : ℤ}
    (h : (markProvisional settings outboundIds attempts now token r).2 = 1) :
    ¬ Foreign r now token ∧ ∃ row, r.row? = some row ∧ row.deliveryStatus ≠ .delivered := by
  revert h
  unfold markProvisional Foreign
  cases hrow : r.row? with
  | none => simp
  | some row =>
    dsimp only
    split_ifs with hterminal hforeign
    · simp
    · simp
    · refine fun _ => ⟨by simp [hforeign], row, rfl, fun heq => hterminal ?_⟩
      rw [heq]
      rfl

theorem markProvisional_ne_one {outboundIds : List String} {attempts : ℤ}
    (h : (markProvisional settings outboundIds attempts now token r).2 ≠ 1) :
    (markProvisional settings outboundIds attempts now token r).1 = r := by
  revert h
  unfold markProvisional
  cases r.row? with
  | none => simp
  | some row =>
    dsimp only
    split_ifs <;> simp

theorem markDelivered_eq_one {outboundIds : List String} {attempts : ℤ}
    (h : (markDelivered settings outboundIds attempts now token r).2 = 1) :
    ¬ Foreign r now token ∧ (∃ row, r.row? = some row ∧ row.deliveryStatus ≠ .delivered) ∧
      ∃ row', (markDelivered settings outboundIds attempts now token r).1.row? = some row' ∧
        row'.deliveryStatus = .delivered := by
  revert h
  unfold markDelivered Foreign
  cases hrow : r.row? with
  | none => simp
  | some row =>
    dsimp only
    split_ifs with hrefused hdelivered hforeign
    · simp
    · simp
    · simp
    · exact fun _ => ⟨by simp [hforeign], ⟨row, rfl, hdelivered⟩, _, rfl, rfl⟩

theorem markDelivered_ne_one {outboundIds : List String} {attempts : ℤ}
    (h : (markDelivered settings outboundIds attempts now token r).2 ≠ 1) :
    (markDelivered settings outboundIds attempts now token r).1 = r := by
  revert h
  unfold markDelivered
  cases r.row? with
  | none => simp
  | some row =>
    dsimp only
    split_ifs <;> simp

/-- The delivered write of the worker whose claim the record carries is made. -/
theorem markDelivered_of_own {outboundIds : List String} {attempts : ℤ} {row : Row δ}
    {expiry : Time} (hrow : r.row? = some row) (hstatus : row.deliveryStatus = .pendingDelivery)
    (hclaim : row.claim = some ⟨token, expiry⟩) :
    (markDelivered settings outboundIds attempts now token r).2 = 1 := by
  simp [markDelivered, hrow, hstatus, hclaim, foreignLease]

theorem markFailed_eq_one {attempts : ℤ} (h : (markFailed settings attempts now token r).2 = 1) :
    ¬ Foreign r now token ∧ ∃ row, r.row? = some row ∧ row.deliveryStatus ≠ .delivered := by
  revert h
  unfold markFailed Foreign
  cases hrow : r.row? with
  | none => simp
  | some row =>
    dsimp only
    split_ifs with hsent hfailed hforeign
    · simp
    · simp
    · simp
    · exact fun _ => ⟨by simp [hforeign], row, rfl, fun heq => hsent (.inl heq)⟩

theorem markFailed_ne_one {attempts : ℤ} (h : (markFailed settings attempts now token r).2 ≠ 1) :
    (markFailed settings attempts now token r).1 = r := by
  revert h
  unfold markFailed
  cases r.row? with
  | none => simp
  | some row =>
    dsimp only
    split_ifs <;> simp

theorem row?_bumpAttempt {row' : Row δ} (h : (bumpAttempt r).1.row? = some row') :
    ∃ row, r.row? = some row ∧ row'.deliveryStatus = row.deliveryStatus ∧
      row'.claim = row.claim := by
  revert h
  unfold bumpAttempt
  cases hkey : r.key with
  | none => simp [Record.row?]
  | some stored =>
    cases stored with
    | row row =>
      intro h
      obtain rfl := Option.some.inj h
      exact ⟨row, by simp [Record.row?, hkey], rfl, rfl⟩
    | attemptsOnly attempts => simp [Record.row?]

end scripts

/-! ## The tasks -/

section tasks

variable {settings : DeliverySettings} {task : Task}

theorem Task.drives_of_acked (h : task.acked = true) : task.drives = true := by
  cases task with
  | posted attempt status => rfl
  | _ => cases h

/-- A task with an acknowledged callback writes the record delivered. -/
theorem Task.cmd_of_acked (settings : DeliverySettings) (h : task.acked = true) :
    ∃ attempts, task.cmd settings = some (.markDelivered [] attempts) := by
  cases task with
  | posted attempt status => exact ⟨attempt, if_pos h⟩
  | _ => cases h

theorem Task.acked_of_cmd {cmd : Cmd} (h : task.cmd settings = some cmd)
    (hne : ∀ attempts, cmd ≠ .markDelivered [] attempts) : task.acked = false := by
  by_contra hacked
  obtain ⟨attempts, hcmd⟩ := cmd_of_acked settings (by simpa using hacked)
  exact hne attempts (Option.some.inj (h.symm.trans hcmd))

theorem Task.drives_of_cmd {cmd : Cmd} (h : task.cmd settings = some cmd)
    (hne : ∀ leaseSeconds, cmd ≠ .claimDelivery leaseSeconds) (hclear : cmd ≠ .clear) :
    task.drives = true := by
  have hclaimed := hasClaimed_of_cmd h hne
  cases task with
  | clearing => exact absurd (Option.some.inj h).symm hclear
  | _ => exact hclaimed

theorem Task.acked_onCode {code : ℤ} : (task.onCode settings code).acked = false := by
  cases task with
  | sending attempts outboundIds chunks =>
    cases chunks <;> simp only [onCode] <;> split_ifs <;> rfl
  | _ => first | rfl | (simp only [onCode]; split_ifs <;> rfl)

/-- A task whose claim or write was refused stops. -/
theorem Task.onCode_ne_one {code : ℤ} (h : code ≠ 1) : task.onCode settings code = .ended := by
  cases task with
  | sending attempts outboundIds chunks => cases chunks <;> simp [onCode, h]
  | _ => simp [onCode, h]

/-- Only the waiting call answers. -/
theorem Task.acked_of_answered {code : ℤ} (h : task.onCode settings code = .answered) :
    task.acked = false := by
  cases task with
  | posted attempt status =>
    simp only [onCode] at h
    split_ifs at h
  | _ => rfl

/-- After a status write a task does not drive the record any more. -/
theorem Task.drives_onCode_of_cmd {cmd : Cmd} {code : ℤ} (h : task.cmd settings = some cmd)
    (hne : ∀ leaseSeconds, cmd ≠ .claimDelivery leaseSeconds) :
    (task.onCode settings code).drives = false := by
  cases task with
  | claiming => exact absurd (Option.some.inj h).symm (hne _)
  | waitClaiming => exact absurd (Option.some.inj h).symm (hne _)
  | sending attempts outboundIds chunks =>
    cases chunks with
    | nil => simp only [onCode]; split_ifs <;> rfl
    | cons chunk rest => exact absurd (Option.some.inj h).symm (hne _)
  | posted attempt status =>
    simp only [Task.cmd] at h
    simp only [onCode]
    split_ifs at h with hack hmax
    · rw [if_pos (.inl hack)]
      rfl
    · rw [if_pos (.inr (.inl hmax))]
      rfl
    · exact absurd (Option.some.inj h).symm (hne _)
  | failing attempts clears => simp only [onCode]; split_ifs <;> rfl
  | waitMarking attempts => simp only [onCode]; split_ifs <;> rfl
  | _ => rfl

theorem Task.acked_onAttempts {attempts : ℤ} : (task.onAttempts attempts).acked = false := by
  cases task <;> rfl

theorem Task.acked_onRecord {config : Config} {row : Option (Row Content)} :
    (task.onRecord settings config row).acked = false := by
  cases task with
  | reading =>
    simp only [onRecord]
    repeat' split
    all_goals rfl
  | _ => rfl

theorem Task.acked_onEntries {sent : List SentChunk} :
    (task.onEntries settings sent).acked = false := by
  cases task with
  | resuming answer maxChars attempts =>
    simp only [onEntries]
    repeat' split
    all_goals rfl
  | _ => rfl

theorem Task.acked_onNotified {notified : Notified} : (task.onNotified notified).acked = false := by
  cases task with
  | notifying attempts outboundIds chunk rest => cases notified <;> rfl
  | _ => rfl

theorem Task.acked_onAppended : task.onAppended.acked = false := by
  cases task <;> rfl

end tasks

/-! ## The steps -/

/-- How many deliveries there have been. -/
def World.deliveries (s : World) : ℕ := s.acknowledged + s.answers

namespace ApiInv

variable {settings : DeliverySettings} {s s' : World} {token : Token} {now : Time}

/-- A step that changes neither status nor claim of a row, and lets no further task drive the
record. -/
theorem frame (h : ApiInv s) (hcreated : s'.created = s.created) (hleases : s'.leases = s.leases)
    (hclock : s'.clock = s.clock) (hcount : s'.deliveries = s.deliveries)
    (hrow : ∀ row', s'.record.row? = some row' → ∃ row, s.record.row? = some row ∧
      row'.deliveryStatus = row.deliveryStatus ∧ row'.claim = row.claim)
    (hdrives : ∀ token, (s'.tasks token).drives = true → (s.tasks token).drives = true)
    (hacked : ∀ token, (s'.tasks token).acked = (s.tasks token).acked) : ApiInv s' := by
  have hlive : ∀ token expiry, Live s' token expiry → Live s token expiry := by
    rintro token expiry ⟨htask, hlease, hlt⟩
    exact ⟨hdrives token htask, hleases ▸ hlease, hclock ▸ hlt⟩
  unfold World.deliveries at hcount
  refine ⟨fun hnew => ?_, ?_, ?_, ?_, ?_, ?_, ?_⟩
  · obtain ⟨hnone, hno, hzero⟩ := h.fresh (hcreated ▸ hnew)
    refine ⟨?_, hleases ▸ hno, hcount ▸ hzero⟩
    cases hrow' : s'.record.row? with
    | none => rfl
    | some row' =>
      obtain ⟨row, hsome, -⟩ := hrow row' hrow'
      rw [hnone] at hsome
      cases hsome
  · intro token expiry row' hl hrow'
    obtain ⟨row, hsome, hstatus, hclaim⟩ := hrow row' hrow'
    rw [hstatus, hclaim]
    exact h.holder token expiry row (hlive token expiry hl) hsome
  · intro token token' expiry expiry' hl hl'
    exact h.unique token token' expiry expiry' (hlive _ _ hl) (hlive _ _ hl')
  · intro token htask
    obtain ⟨expiry, -, hlease, hlt⟩ := h.acked token (hacked token ▸ htask)
    exact ⟨expiry, Task.drives_of_acked htask, hleases ▸ hlease, hclock ▸ hlt⟩
  · rw [hcount]
    exact h.once
  · intro hone token expiry hl
    rw [hacked]
    exact h.after (hcount ▸ hone) token expiry (hlive _ _ hl)
  · intro hone hno row' hrow'
    obtain ⟨row, hsome, hstatus, -⟩ := hrow row' hrow'
    rw [hstatus]
    exact h.written (hcount ▸ hone) (fun token => hacked token ▸ hno token) row hsome

/-- Under a foreign live lease no write is made. -/
theorem not_live_of_not_foreign (h : ApiInv s) {row : Row Content}
    (hrow : s.record.row? = some row) (hforeign : ¬ Foreign s.record now token)
    (hnow : now ≤ s.clock) {token' : Token} {expiry : Time} (hne : token' ≠ token) :
    ¬ Live s token' expiry := by
  intro hlive
  obtain ⟨-, hclaim⟩ := h.holder token' expiry row hlive hrow
  refine hforeign ⟨row, hrow, ?_⟩
  have hlt : now < expiry := lt_of_le_of_lt hnow hlive.2.2
  simp [foreignLease, hclaim, hne, hlt]

/-- Where no other worker is live and the record is not delivered, nothing has been delivered yet,
unless by this worker. -/
theorem deliveries_eq_zero (h : ApiInv s) {row : Row Content} (hrow : s.record.row? = some row)
    (hstatus : row.deliveryStatus ≠ .delivered) (hown : (s.tasks token).acked = false)
    (hothers : ∀ token' expiry, token' ≠ token → ¬ Live s token' expiry) :
    s.deliveries = 0 := by
  have honce := h.once
  by_contra hne
  have hone : s.acknowledged + s.answers = 1 := by
    unfold World.deliveries at hne
    omega
  refine hstatus (h.written hone (fun token' => ?_) row hrow)
  by_contra hacked
  obtain ⟨expiry, hlive⟩ := h.acked token' (by simpa using hacked)
  by_cases heq : token' = token
  · rw [heq, hown] at hacked
    exact hacked rfl
  · exact hothers token' expiry heq hlive

/-- A status write that is made: no other worker is live, and this one is done. -/
theorem marked (h : ApiInv s) {row : Row Content} {task : Task} (hcreated : s'.created = s.created)
    (hleases : s'.leases = s.leases) (hclock : s'.clock = s.clock)
    (htasks : s'.tasks = Function.update s.tasks token task) (hdrives : task.drives = false)
    (hnow : now ≤ s.clock) (hforeign : ¬ Foreign s.record now token)
    (hrow : s.record.row? = some row) (hstatus : row.deliveryStatus ≠ .delivered)
    (hcount : s'.deliveries = s.deliveries ∨ s'.deliveries = s.deliveries + 1 ∧
      (s.tasks token).acked = false)
    (hwritten : s'.deliveries = s.deliveries + 1 ∨ (s.tasks token).acked = true →
      ∀ row', s'.record.row? = some row' → row'.deliveryStatus = .delivered) : ApiInv s' := by
  have hothers : ∀ token' expiry, token' ≠ token → ¬ Live s token' expiry :=
    fun token' expiry hne => h.not_live_of_not_foreign hrow hforeign hnow hne
  have hself : s'.tasks token = task := by rw [htasks, Function.update_self]
  have hother : ∀ token', token' ≠ token → s'.tasks token' = s.tasks token' :=
    fun token' hne => by rw [htasks, Function.update_of_ne hne]
  have hnone : ∀ token' expiry, ¬ Live s' token' expiry := by
    rintro token' expiry ⟨htask, hlease, hlt⟩
    by_cases heq : token' = token
    · rw [heq, hself, hdrives] at htask
      cases htask
    · exact hothers token' expiry heq ⟨hother token' heq ▸ htask, hleases ▸ hlease, hclock ▸ hlt⟩
  have honce := h.once
  unfold World.deliveries at hcount hwritten
  refine ⟨fun hnew => ?_, ?_, ?_, ?_, ?_, ?_, ?_⟩
  · rw [(h.fresh (hcreated ▸ hnew)).1] at hrow
    cases hrow
  · exact fun token' expiry row' hl => absurd hl (hnone token' expiry)
  · exact fun token' token'' expiry expiry' hl => absurd hl (hnone token' expiry)
  · intro token' hacked
    by_cases heq : token' = token
    · rw [heq, hself] at hacked
      rw [Task.drives_of_acked hacked] at hdrives
      cases hdrives
    · rw [hother token' heq] at hacked
      obtain ⟨expiry, hlive⟩ := h.acked token' hacked
      exact absurd hlive (hothers token' expiry heq)
  · rcases hcount with hsame | ⟨hsucc, hown⟩
    · omega
    · have hzero := h.deliveries_eq_zero hrow hstatus hown hothers
      unfold World.deliveries at hzero
      omega
  · exact fun _ token' expiry hl => absurd hl (hnone token' expiry)
  · intro hone hno
    by_cases hown : (s.tasks token).acked = true
    · exact hwritten (.inr hown)
    · rcases hcount with hsame | ⟨hsucc, -⟩
      · have hzero := h.deliveries_eq_zero hrow hstatus (by simpa using hown) hothers
        unfold World.deliveries at hzero
        omega
      · exact hwritten (.inl hsucc)

/-- A claim that is won: its worker is the only live one, and nothing has been delivered yet. -/
theorem claimed (h : ApiInv s) {row : Row Content} {task : Task} {expiry : Time}
    (hcreated : s'.created = s.created) (hcount : s'.deliveries = s.deliveries)
    (hleases : s'.leases = Function.update s.leases token (some expiry))
    (hclock : s'.clock = s.clock) (htasks : s'.tasks = Function.update s.tasks token task)
    (hacked : task.acked = false) (hown : (s.tasks token).acked = false) (hnow : now ≤ s.clock)
    (hforeign : ¬ Foreign s.record now token) (hrow : s.record.row? = some row)
    (hstatus : row.deliveryStatus = .pendingDelivery)
    (hrow' : s'.record.row? = some { row with claim := some ⟨token, expiry⟩ }) : ApiInv s' := by
  have hothers : ∀ token' expiry, token' ≠ token → ¬ Live s token' expiry :=
    fun token' expiry hne => h.not_live_of_not_foreign hrow hforeign hnow hne
  have hzero : s'.deliveries = 0 :=
    hcount.trans (h.deliveries_eq_zero hrow (by simp [hstatus]) hown hothers)
  have hself : s'.tasks token = task := by rw [htasks, Function.update_self]
  have hother : ∀ token', token' ≠ token → s'.tasks token' = s.tasks token' :=
    fun token' hne => by rw [htasks, Function.update_of_ne hne]
  have honly : ∀ token' expiry', Live s' token' expiry' → token' = token ∧ expiry' = expiry := by
    rintro token' expiry' ⟨htask, hlease, hlt⟩
    rw [hleases] at hlease
    by_cases heq : token' = token
    · rw [heq, Function.update_self] at hlease
      exact ⟨heq, (Option.some.inj hlease).symm⟩
    · rw [Function.update_of_ne heq] at hlease
      exact absurd ⟨hother token' heq ▸ htask, hlease, hclock ▸ hlt⟩ (hothers token' expiry' heq)
  unfold World.deliveries at hzero
  refine ⟨fun hnew => ?_, ?_, ?_, ?_, by omega, ?_, ?_⟩
  · rw [(h.fresh (hcreated ▸ hnew)).1] at hrow
    cases hrow
  · intro token' expiry' row'' hl hrow''
    obtain ⟨rfl, rfl⟩ := honly token' expiry' hl
    obtain rfl := Option.some.inj (hrow'.symm.trans hrow'')
    exact ⟨hstatus, rfl⟩
  · intro token' token'' expiry' expiry'' hl hl'
    rw [(honly _ _ hl).1, (honly _ _ hl').1]
  · intro token' hacked'
    by_cases heq : token' = token
    · rw [heq, hself, hacked] at hacked'
      cases hacked'
    · rw [hother token' heq] at hacked'
      obtain ⟨expiry', hlive⟩ := h.acked token' hacked'
      exact absurd hlive (hothers token' expiry' heq)
  · intro hone
    omega
  · intro hone
    omega

/-- A callback that is answered: under a live lease it is the first delivery. -/
theorem post (h : ApiInv s) {attempt expiry : ℤ} (status : Option ℕ)
    (htask : s.tasks token = .posting attempt) (hlease : s.leases token = some expiry)
    (hlt : s.clock < expiry) :
    ApiInv { s.goOn token (.posted attempt status) with
      acknowledged := if acknowledges status then s.acknowledged + 1 else s.acknowledged } := by
  have hlive : Live s token expiry := ⟨by rw [htask]; rfl, hlease, hlt⟩
  have hzero : s.acknowledged + s.answers = 0 := by
    have honce := h.once
    by_contra hne
    have hacked := h.after (by omega) token expiry hlive
    rw [htask] at hacked
    cases hacked
  set s' : World := { s.goOn token (.posted attempt status) with
    acknowledged := if acknowledges status then s.acknowledged + 1 else s.acknowledged } with hs'
  have hself : s'.tasks token = .posted attempt status := Function.update_self _ _ _
  have hother : ∀ token', token' ≠ token → s'.tasks token' = s.tasks token' :=
    fun token' hne => Function.update_of_ne hne _ _
  have hback : ∀ token' expiry', Live s' token' expiry' → Live s token' expiry' := by
    rintro token' expiry' ⟨htask', hlease', hlt'⟩
    refine ⟨?_, hlease', hlt'⟩
    by_cases heq : token' = token
    · rw [heq, htask]
      rfl
    · rwa [hother token' heq] at htask'
  refine ⟨fun hnew => ?_, ?_, ?_, ?_, ?_, ?_, ?_⟩
  · have hno := (h.fresh hnew).2.1 token
    rw [hlease] at hno
    cases hno
  · exact fun token' expiry' row hl hrow => h.holder token' expiry' row (hback _ _ hl) hrow
  · exact fun token' token'' expiry' expiry'' hl hl' =>
      h.unique _ _ _ _ (hback _ _ hl) (hback _ _ hl')
  · intro token' hacked
    by_cases heq : token' = token
    · subst heq
      exact ⟨expiry, by rw [hself]; rfl, hlease, hlt⟩
    · rw [hother token' heq] at hacked
      obtain ⟨expiry', htask', hlease', hlt'⟩ := h.acked token' hacked
      exact ⟨expiry', by rwa [hother token' heq], hlease', hlt'⟩
  · show (if acknowledges status = true then s.acknowledged + 1 else s.acknowledged) +
      s.answers ≤ 1
    split_ifs
    · omega
    · omega
  · intro hone token' expiry' hl
    have hsame : token' = token := h.unique _ _ _ _ (hback _ _ hl) hlive
    have hack : acknowledges status = true := by
      by_contra hnot
      change (if acknowledges status = true then s.acknowledged + 1 else s.acknowledged) +
        s.answers = 1 at hone
      rw [if_neg hnot] at hone
      omega
    rw [hsame, hself]
    exact hack
  · intro hone hno
    have hack : acknowledges status = true := by
      by_contra hnot
      change (if acknowledges status = true then s.acknowledged + 1 else s.acknowledged) +
        s.answers = 1 at hone
      rw [if_neg hnot] at hone
      omega
    have := hno token
    rw [hself] at this
    exact absurd hack (by simpa [Task.acked] using this)

/-- A record that is neither to be delivered nor delivered is written by no worker. -/
theorem env (h : ApiInv s) {row : Row Content} {r : Record Content} (hrow : s.record.row? = some row)
    (hpending : row.deliveryStatus ≠ .pendingDelivery)
    (hdelivered : row.deliveryStatus ≠ .delivered) :
    ApiInv { s with record := r } := by
  have hnone : ∀ token expiry, ¬ Live s token expiry :=
    fun token expiry hl => hpending (h.holder token expiry row hl hrow).1
  have hzero : s.acknowledged + s.answers = 0 :=
    have hown : (s.tasks 0).acked = false := by
      by_contra hacked
      obtain ⟨expiry, hl⟩ := h.acked 0 (by simpa using hacked)
      exact hnone 0 expiry hl
    h.deliveries_eq_zero hrow hdelivered hown fun token expiry _ => hnone token expiry
  refine ⟨fun hnew => ?_, ?_, ?_, h.acked, h.once, ?_, ?_⟩
  · rw [(h.fresh hnew).1] at hrow
    cases hrow
  · exact fun token expiry row' hl => absurd hl (hnone token expiry)
  · exact fun token token' expiry expiry' hl => absurd hl (hnone token expiry)
  · exact fun hone => absurd hone (by show s.acknowledged + s.answers ≠ 1; omega)
  · exact fun hone => absurd hone (by show s.acknowledged + s.answers ≠ 1; omega)

/-- A step of one task that changes neither status nor claim of the row. -/
theorem goOn (h : ApiInv s) {task : Task} (hcreated : s'.created = s.created)
    (hleases : s'.leases = s.leases) (hclock : s'.clock = s.clock)
    (hcount : s'.deliveries = s.deliveries)
    (hrow : ∀ row', s'.record.row? = some row' → ∃ row, s.record.row? = some row ∧
      row'.deliveryStatus = row.deliveryStatus ∧ row'.claim = row.claim)
    (htasks : s'.tasks = Function.update s.tasks token task)
    (hdrives : task.drives = true → (s.tasks token).drives = true)
    (hacked : task.acked = false) (hown : (s.tasks token).acked = false) : ApiInv s' := by
  refine h.frame hcreated hleases hclock hcount hrow (fun token' => ?_) (fun token' => ?_)
  · rw [htasks]
    by_cases heq : token' = token
    · rw [heq, Function.update_self]
      exact hdrives
    · rw [Function.update_of_ne heq]
      exact id
  · rw [htasks]
    by_cases heq : token' = token
    · rw [heq, Function.update_self, hacked, hown]
    · rw [Function.update_of_ne heq]

theorem same_row {r : Record Content} (heq : r = s.record) :
    ∀ row', r.row? = some row' → ∃ row, s.record.row? = some row ∧
      row'.deliveryStatus = row.deliveryStatus ∧ row'.claim = row.claim := by
  subst heq
  exact fun row hrow => ⟨row, hrow, rfl, rfl⟩

/-- A task with an acknowledged callback finds the record under its own claim, or gone. -/
theorem markDelivered_of_acked (h : ApiInv s) {outboundIds : List String} {attempts : ℤ}
    (hacked : (s.tasks token).acked = true) {row : Row Content} (hrow : s.record.row? = some row) :
    (Conversations.markDelivered settings.toConversationsSettings outboundIds attempts now token
      s.record).2 = 1 := by
  obtain ⟨expiry, hlive⟩ := h.acked token hacked
  obtain ⟨hstatus, hclaim⟩ := h.holder token expiry row hlive hrow
  exact markDelivered_of_own hrow hstatus hclaim

/-- A task ends on a record whose row is gone. -/
theorem gone (h : ApiInv s) {task : Task} (hcreated : s'.created = s.created)
    (hleases : s'.leases = s.leases) (hclock : s'.clock = s.clock)
    (hcount : s'.deliveries = s.deliveries) (hrow' : s'.record.row? = none)
    (htasks : s'.tasks = Function.update s.tasks token task)
    (hdrives : task.drives = false) : ApiInv s' := by
  have hback : ∀ token' expiry, Live s' token' expiry →
      Live s token' expiry ∧ s'.tasks token' = s.tasks token' := by
    rintro token' expiry ⟨htask, hlease, hlt⟩
    rw [htasks] at htask ⊢
    by_cases heq : token' = token
    · rw [heq, Function.update_self, hdrives] at htask
      cases htask
    · rw [Function.update_of_ne heq] at htask ⊢
      exact ⟨⟨htask, hleases ▸ hlease, hclock ▸ hlt⟩, rfl⟩
  unfold World.deliveries at hcount
  refine ⟨fun hnew => ⟨hrow', hleases ▸ (h.fresh (hcreated ▸ hnew)).2.1,
    hcount ▸ (h.fresh (hcreated ▸ hnew)).2.2⟩, ?_, ?_, ?_, hcount ▸ h.once, ?_, ?_⟩
  · intro token' expiry row _ hsome
    rw [hrow'] at hsome
    cases hsome
  · exact fun token' token'' expiry expiry' hl hl' =>
      h.unique _ _ _ _ (hback _ _ hl).1 (hback _ _ hl').1
  · intro token' hacked
    by_cases heq : token' = token
    · rw [htasks, heq, Function.update_self] at hacked
      rw [Task.drives_of_acked hacked] at hdrives
      cases hdrives
    · have hsame : s'.tasks token' = s.tasks token' := by rw [htasks, Function.update_of_ne heq]
      obtain ⟨expiry, htask, hlease, hlt⟩ := h.acked token' (hsame ▸ hacked)
      exact ⟨expiry, hsame ▸ htask, hleases ▸ hlease, hclock ▸ hlt⟩
  · intro hone token' expiry hl
    obtain ⟨hl', hsame⟩ := hback _ _ hl
    rw [hsame]
    exact h.after (hcount ▸ hone) token' expiry hl'
  · intro _ _ row hsome
    rw [hrow'] at hsome
    cases hsome

theorem perform {input : Input} {cmd : Cmd} (h : ApiInv s)
    (hcmd : (s.tasks token).cmd settings = some cmd) (hok : LeaseHeld s (.run token now input)) :
    ApiInv (s.perform settings token now input cmd) := by
  obtain ⟨hnow, hpost⟩ := hok
  cases cmd with
  | claimDelivery leaseSeconds =>
    have hown : (s.tasks token).acked = false := Task.acked_of_cmd hcmd (by simp)
    by_cases hcode : (claimDelivery now token leaseSeconds s.record).2 = 1
    · obtain ⟨hforeign, row, hrow, hstatus, hrow'⟩ := claimDelivery_eq_one hcode
      exact h.claimed rfl rfl (if_pos hcode) rfl rfl Task.acked_onCode hown hnow hforeign hrow
        hstatus hrow'
    · refine h.goOn rfl (if_neg hcode) rfl rfl (same_row (claimDelivery_ne_one hcode)) rfl ?_
        Task.acked_onCode hown
      intro hdrives
      rw [Task.onCode_ne_one hcode] at hdrives
      cases hdrives
  | getRecord =>
    exact h.goOn rfl rfl rfl rfl (same_row rfl) rfl
      (fun _ => Task.drives_of_cmd hcmd (by simp) (by simp)) Task.acked_onRecord
      (Task.acked_of_cmd hcmd (by simp))
  | bumpAttempt =>
    exact h.goOn rfl rfl rfl rfl (fun row' hrow' => row?_bumpAttempt hrow') rfl
      (fun _ => Task.drives_of_cmd hcmd (by simp) (by simp)) Task.acked_onAttempts
      (Task.acked_of_cmd hcmd (by simp))
  | markProvisional outboundIds attempts =>
    have hown : (s.tasks token).acked = false := Task.acked_of_cmd hcmd (by simp)
    by_cases hcode : (markProvisional settings.toConversationsSettings outboundIds attempts now
        token s.record).2 = 1
    · obtain ⟨hforeign, row, hrow, hstatus⟩ := markProvisional_eq_one hcode
      refine h.marked rfl rfl rfl rfl (Task.drives_onCode_of_cmd hcmd (by simp)) hnow hforeign hrow
        hstatus (.inl rfl) ?_
      rintro (hsucc | hacked)
      · exact absurd hsucc (by simp [World.deliveries, World.perform, World.goOn])
      · rw [hown] at hacked
        cases hacked
    · refine h.goOn rfl rfl rfl rfl (same_row (markProvisional_ne_one hcode)) rfl ?_
        Task.acked_onCode hown
      intro hdrives
      rw [Task.onCode_ne_one hcode] at hdrives
      cases hdrives
  | markDelivered outboundIds attempts =>
    by_cases hcode : (markDelivered settings.toConversationsSettings outboundIds attempts now token
        s.record).2 = 1
    · obtain ⟨hforeign, ⟨row, hrow, hstatus⟩, row', hrow', hdelivered⟩ := markDelivered_eq_one hcode
      refine h.marked rfl rfl rfl rfl (Task.drives_onCode_of_cmd hcmd (by simp)) hnow hforeign hrow
        hstatus ?_ ?_
      · by_cases hanswer : (s.tasks token).onCode settings (markDelivered
            settings.toConversationsSettings outboundIds attempts now token s.record).2 = .answered
        · refine .inr ⟨?_, Task.acked_of_answered hanswer⟩
          simp only [World.deliveries, World.perform, World.goOn, if_pos hanswer]
          omega
        · refine .inl ?_
          simp only [World.deliveries, World.perform, World.goOn, if_neg hanswer]
      · intro _ row'' hrow''
        obtain rfl := Option.some.inj (hrow'.symm.trans hrow'')
        exact hdelivered
    · have hended : (s.tasks token).onCode settings (markDelivered
          settings.toConversationsSettings outboundIds attempts now token s.record).2 = .ended :=
        Task.onCode_ne_one hcode
      have hrecord := markDelivered_ne_one hcode
      have hcount : (s.perform settings token now input
          (.markDelivered outboundIds attempts)).deliveries = s.deliveries := by
        simp [World.deliveries, World.perform, World.goOn, hended]
      by_cases hown : (s.tasks token).acked = true
      · -- the write of this worker is refused only where the row is gone
        have hnone : s.record.row? = none := by
          cases hrow : s.record.row? with
          | none => rfl
          | some row => exact absurd (h.markDelivered_of_acked hown hrow) hcode
        exact h.gone rfl rfl rfl hcount (by rw [← hnone, ← hrecord]; rfl) rfl (by rw [hended]; rfl)
      · refine h.goOn rfl rfl rfl hcount (same_row hrecord) rfl ?_ Task.acked_onCode
          (by simpa using hown)
        intro hdrives
        rw [hended] at hdrives
        cases hdrives
  | markFailed attempts =>
    have hown : (s.tasks token).acked = false := Task.acked_of_cmd hcmd (by simp)
    by_cases hcode : (markFailed settings.toConversationsSettings attempts now token
        s.record).2 = 1
    · obtain ⟨hforeign, row, hrow, hstatus⟩ := markFailed_eq_one hcode
      refine h.marked rfl rfl rfl rfl (Task.drives_onCode_of_cmd hcmd (by simp)) hnow hforeign hrow
        hstatus (.inl rfl) ?_
      rintro (hsucc | hacked)
      · exact absurd hsucc (by simp [World.deliveries, World.perform, World.goOn])
      · rw [hown] at hacked
        cases hacked
    · refine h.goOn rfl rfl rfl rfl (same_row (markFailed_ne_one hcode)) rfl ?_
        Task.acked_onCode hown
      intro hdrives
      rw [Task.onCode_ne_one hcode] at hdrives
      cases hdrives
  | sentChunks =>
    exact h.goOn rfl rfl rfl rfl (same_row rfl) rfl
      (fun _ => Task.drives_of_cmd hcmd (by simp) (by simp)) Task.acked_onEntries
      (Task.acked_of_cmd hcmd (by simp))
  | append entry =>
    exact h.goOn rfl rfl rfl rfl (same_row rfl) rfl
      (fun _ => Task.drives_of_cmd hcmd (by simp) (by simp)) Task.acked_onAppended
      (Task.acked_of_cmd hcmd (by simp))
  | clear =>
    exact h.goOn rfl rfl rfl rfl (same_row rfl) rfl (fun hdrives => by cases hdrives) rfl
      (Task.acked_of_cmd hcmd (by simp))
  | notify message =>
    exact h.goOn rfl rfl rfl rfl (same_row rfl) rfl
      (fun _ => Task.drives_of_cmd hcmd (by simp) (by simp)) Task.acked_onNotified
      (Task.acked_of_cmd hcmd (by simp))
  | post =>
    cases htask : s.tasks token with
    | posting attempt =>
      rw [htask] at hpost
      obtain ⟨expiry, hlease, hlt⟩ := hpost
      have hinv := h.post input.status htask hlease hlt
      simpa only [World.perform, htask, Task.onStatus] using hinv
    | sending attempts outboundIds chunks =>
      rw [htask] at hcmd
      cases chunks <;> cases hcmd
    | posted attempt status =>
      rw [htask] at hcmd
      simp only [Task.cmd] at hcmd
      split_ifs at hcmd <;> cases hcmd
    | _ =>
      rw [htask] at hcmd
      cases hcmd

theorem step {a : Label} (h : ApiInv s) (hok : LeaseHeld s a)
    (hstep : s.next settings a = some s') : ApiInv s' := by
  cases a with
  | create data status intakeToken now =>
    have hcreated : s.created = false := by
      by_contra hne
      simp [World.next, hne] at hstep
    simp only [World.next, hcreated, Bool.false_eq_true, if_false, Option.some.injEq] at hstep
    subst hstep
    obtain ⟨hnone, hno, hzero⟩ := h.fresh hcreated
    have hlive : ∀ token expiry, ¬ Live s token expiry := by
      rintro token expiry ⟨-, hlease, -⟩
      rw [hno] at hlease
      cases hlease
    refine ⟨fun hne => (by cases hne), ?_, ?_, h.acked, h.once, ?_, ?_⟩
    · exact fun token expiry row hl => absurd hl (hlive token expiry)
    · exact fun token token' expiry expiry' hl => absurd hl (hlive token expiry)
    · exact fun hone => absurd hone (by show s.acknowledged + s.answers ≠ 1; omega)
    · exact fun hone => absurd hone (by show s.acknowledged + s.answers ≠ 1; omega)
  | completeTurn data now =>
    obtain rfl := Option.some.inj hstep
    by_cases hintake : ∃ row, s.record.row? = some row ∧ row.deliveryStatus = .accepted
    · obtain ⟨row, hrow, hstatus⟩ := hintake
      have henv := h.env (r := (completeTurn settings.toConversationsSettings data now s.record).1)
        hrow (by simp [hstatus]) (by simp [hstatus])
      exact ⟨henv.fresh, henv.holder, henv.unique, henv.acked, henv.once, henv.after, henv.written⟩
    · have hsame : (completeTurn settings.toConversationsSettings data now s.record).1 =
          s.record := by
        unfold Conversations.completeTurn
        cases hrow : s.record.row? with
        | none => rfl
        | some row =>
          dsimp only
          rw [if_pos (fun hstatus => hintake ⟨row, hrow, hstatus⟩)]
      exact h.frame rfl rfl rfl rfl (same_row hsame) (fun _ => id) (fun _ => rfl)
  | claimIntake now token leaseSeconds =>
    obtain rfl := Option.some.inj hstep
    refine h.frame rfl rfl rfl rfl ?_ (fun _ => id) (fun _ => rfl)
    intro row' hrow'
    change (claimIntake now token leaseSeconds s.record).1.row? = some row' at hrow'
    revert hrow'
    unfold Conversations.claimIntake
    cases hrow : s.record.row? with
    | none => simp [hrow]
    | some row =>
      dsimp only
      split_ifs
      · rw [hrow]
        rintro ⟨⟩
        exact ⟨_, rfl, rfl, rfl⟩
      · rw [hrow]
        rintro ⟨⟩
        exact ⟨_, rfl, rfl, rfl⟩
      · rintro ⟨⟩
        exact ⟨row, rfl, rfl, rfl⟩
  | deleteRecord =>
    obtain rfl := Option.some.inj hstep
    exact h.frame rfl rfl rfl rfl (fun row' hrow' => by cases hrow') (fun _ => id) (fun _ => rfl)
  | receipt receipt now =>
    obtain rfl := Option.some.inj hstep
    by_cases hsent : ∃ row, s.record.row? = some row ∧ row.deliveryStatus = .provisional
    · obtain ⟨row, hrow, hstatus⟩ := hsent
      exact h.env hrow (by simp [hstatus]) (by simp [hstatus])
    · have hsame : (ingestReceipt settings.toConversationsSettings receipt now s.record).1 =
          s.record := by
        unfold Conversations.ingestReceipt
        cases hrow : s.record.row? with
        | none => rfl
        | some row =>
          dsimp only
          split_ifs with _ _ hprovisional
          · rfl
          · rfl
          · rfl
          · exact absurd ⟨row, hrow, not_not.mp hprovisional⟩ hsent
      exact h.frame rfl rfl rfl rfl (same_row hsame) (fun _ => id) (fun _ => rfl)
  | expire =>
    obtain rfl := Option.some.inj hstep
    refine h.frame rfl rfl rfl rfl ?_ (fun _ => id) (fun _ => rfl)
    intro row' hrow'
    change (expire s.record).row? = some row' at hrow'
    revert hrow'
    unfold Conversations.expire
    cases hrow : s.record.row? with
    | none => simp [hrow]
    | some row =>
      dsimp only
      split_ifs
      · rintro ⟨⟩
      · rw [hrow]
        rintro ⟨⟩
        exact ⟨_, rfl, rfl, rfl⟩
  | expireLedger =>
    obtain rfl := Option.some.inj hstep
    exact h.frame rfl rfl rfl rfl (same_row rfl) (fun _ => id) (fun _ => rfl)
  | tick now =>
    simp only [World.next, Option.ite_none_right_eq_some, Option.some.injEq] at hstep
    obtain ⟨hle, rfl⟩ := hstep
    have hback : ∀ token expiry, Live { s with clock := now } token expiry → Live s token expiry := by
      rintro token expiry ⟨htask, hlease, hlt⟩
      exact ⟨htask, hlease, lt_of_le_of_lt hle hlt⟩
    refine ⟨h.fresh, fun token expiry row hl => h.holder token expiry row (hback _ _ hl),
      fun token token' expiry expiry' hl hl' => h.unique _ _ _ _ (hback _ _ hl) (hback _ _ hl'), ?_,
      h.once, fun hone token expiry hl => h.after hone token expiry (hback _ _ hl), h.written⟩
    intro token hacked
    -- time does not pass the lease of a worker whose callback is acknowledged
    obtain ⟨expiry, hlease, hlt⟩ := hok token hacked
    exact ⟨expiry, Task.drives_of_acked hacked, hlease, hlt⟩
  | deliver token =>
    simp only [World.next, Option.ite_none_right_eq_some, Option.some.injEq] at hstep
    obtain ⟨hidle, rfl⟩ := hstep
    exact h.goOn rfl rfl rfl rfl (same_row rfl) rfl (fun hdrives => by cases hdrives) rfl
      (by rw [hidle]; rfl)
  | waitDeliver token =>
    simp only [World.next, Option.ite_none_right_eq_some, Option.some.injEq] at hstep
    obtain ⟨hidle, rfl⟩ := hstep
    exact h.goOn rfl rfl rfl rfl (same_row rfl) rfl (fun hdrives => by cases hdrives) rfl
      (by rw [hidle]; rfl)
  | run token now input =>
    simp only [World.next, Option.map_eq_some_iff] at hstep
    obtain ⟨cmd, hcmd, rfl⟩ := hstep
    exact h.perform hcmd hok
  | crash token =>
    obtain rfl := Option.some.inj hstep
    exact h.goOn rfl rfl rfl rfl (same_row rfl) rfl (fun hdrives => by cases hdrives) rfl hok

theorem start : ApiInv .start where
  fresh _ := ⟨rfl, fun _ => rfl, rfl⟩
  holder token expiry row h := by obtain ⟨htask, -⟩ := h; cases htask
  unique token token' expiry expiry' h := by obtain ⟨htask, -⟩ := h; cases htask
  acked token h := by cases h
  once := Nat.zero_le _
  after h := by cases h
  written h := by cases h

end ApiInv

/-! ## Every run -/

/-- What holds of a state that leased workers reach. -/
structure ExactlyOnce (settings : DeliverySettings) (s : World) : Prop where
  /-- The answer goes out once at most, in the `200` or in an acknowledged callback. -/
  once : s.acknowledged + s.answers ≤ 1
  /-- The `200` carries the answer only where that call has delivered the record. -/
  answered : ∀ a s', (leasedDelivery settings).step s a s' → s'.answers ≠ s.answers →
    (∃ row, s.record.row? = some row ∧ row.deliveryStatus ≠ .delivered) ∧
      ∃ row', s'.record.row? = some row' ∧ row'.deliveryStatus = .delivered
  /-- A record left to be delivered can be claimed once the lease in force has lapsed. -/
  claimable : ∀ row now token leaseSeconds, s.record.row? = some row →
    row.deliveryStatus = .pendingDelivery → (∀ lease, row.claim = some lease → lease.expiry ≤ now) →
    (claimDelivery now token leaseSeconds s.record).2 = 1

theorem claimDelivery_of_lapsed {δ : Type} {r : Record δ} {row : Row δ} {now leaseSeconds : Time}
    {token : Token} (hrow : r.row? = some row) (hstatus : row.deliveryStatus = .pendingDelivery)
    (hlapsed : ∀ lease, row.claim = some lease → lease.expiry ≤ now) :
    (claimDelivery now token leaseSeconds r).2 = 1 := by
  have hforeign : foreignLease row.claim now token = false := by
    unfold foreignLease
    cases hclaim : row.claim with
    | none => rfl
    | some lease =>
      have hle := hlapsed lease hclaim
      simp [not_lt.mpr hle]
  simp [claimDelivery, hrow, hstatus, hforeign]

/-- An answer is only returned over a delivered write that is made. -/
theorem World.answers_perform {settings : DeliverySettings} {s : World} {token : Token}
    {now : Time} {input : Input} {cmd : Cmd}
    (h : (s.perform settings token now input cmd).answers ≠ s.answers) :
    (∃ row, s.record.row? = some row ∧ row.deliveryStatus ≠ .delivered) ∧
      ∃ row', (s.perform settings token now input cmd).record.row? = some row' ∧
        row'.deliveryStatus = .delivered := by
  cases cmd with
  | markDelivered outboundIds attempts =>
    by_cases hcode : (Conversations.markDelivered settings.toConversationsSettings outboundIds
        attempts now token s.record).2 = 1
    · exact (markDelivered_eq_one hcode).2
    · refine absurd ?_ h
      have hended : (s.tasks token).onCode settings _ = .ended := Task.onCode_ne_one hcode
      simp [World.perform, hended]
  | _ => exact absurd rfl h

/-- However the waiting call, the deliveries, the sweeps and the re-drives of an API record come
in between each other, its answer goes out once at most. -/
theorem exactlyOnce {settings : DeliverySettings} {s : World}
    (h : (leasedDelivery settings).Reachable s) : ExactlyOnce settings s := by
  have hinv : ApiInv s := by
    refine h.invariant ?_ ?_
    · rintro s rfl
      exact .start
    · rintro s a s' hinv ⟨hok, hstep⟩
      exact hinv.step hok hstep
  refine ⟨hinv.once, ?_, fun row now token leaseSeconds hrow hstatus hlapsed =>
    claimDelivery_of_lapsed hrow hstatus hlapsed⟩
  rintro a s' ⟨-, hstep⟩ hne
  change s.next settings a = some s' at hstep
  cases a with
  | run token now input =>
    simp only [World.next, Option.map_eq_some_iff] at hstep
    obtain ⟨cmd, -, rfl⟩ := hstep
    exact World.answers_perform hne
  | create data status intakeToken now =>
    simp only [World.next] at hstep
    split_ifs at hstep
    obtain rfl := Option.some.inj hstep
    exact absurd rfl hne
  | tick now =>
    simp only [World.next, Option.ite_none_right_eq_some, Option.some.injEq] at hstep
    obtain ⟨-, rfl⟩ := hstep
    exact absurd rfl hne
  | deliver token =>
    simp only [World.next, Option.ite_none_right_eq_some, Option.some.injEq] at hstep
    obtain ⟨-, rfl⟩ := hstep
    exact absurd rfl hne
  | waitDeliver token =>
    simp only [World.next, Option.ite_none_right_eq_some, Option.some.injEq] at hstep
    obtain ⟨-, rfl⟩ := hstep
    exact absurd rfl hne
  | _ =>
    obtain rfl := Option.some.inj hstep
    exact absurd rfl hne

/-- The steps that `LeaseHeld` admits while the clock stands. -/
def heldNow (s : World) : Label → Bool
  | .run token now _ => decide (now ≤ s.clock) &&
    match s.tasks token with
    | .posting _ => (s.leases token).any fun expiry => decide (s.clock < expiry)
    | _ => true
  | .tick _ | .crash _ => false
  | _ => true

theorem leaseHeld_of_heldNow {s : World} {a : Label} (h : heldNow s a = true) : LeaseHeld s a := by
  cases a with
  | run token now input =>
    simp only [heldNow, Bool.and_eq_true, decide_eq_true_eq] at h
    obtain ⟨hnow, hpost⟩ := h
    refine ⟨hnow, ?_⟩
    cases htask : s.tasks token with
    | posting attempt => simpa [htask, Option.any_eq_true] using hpost
    | _ => trivial
  | tick now => cases h
  | crash token => cases h
  | _ => trivial

/-- A turn has been completed whose answer goes to a callback. -/
def callbackCompleted : List Label :=
  [.create ⟨.api, none, some "hello".toList, some "https://example.com/cb"⟩ .accepted (some 9) 0,
    .completeTurn ⟨.api, none, some "hello".toList, some "https://example.com/cb"⟩ 0]

/-- A sweep's delivery comes before the waiting call. -/
theorem exactlyOnce_callback : ∃ s, (leasedDelivery defaultDelivery).Reachable s ∧
    s.acknowledged = 1 ∧ s.answers = 0 ∧ s.tasks 1 = .ended ∧ ExactlyOnce defaultDelivery s := by
  obtain ⟨s, hs, hp⟩ := System.Reachable.of_foldlM (S := leasedDelivery defaultDelivery)
    (f := System.guarded (World.next defaultDelivery) heldNow) (s := .start)
    (p := fun s => s.acknowledged == 1 && s.answers == 0 && s.tasks 1 == .ended)
    (l := callbackCompleted ++ .waitDeliver 1 :: .deliver 2 ::
      List.replicate 5 (.run 2 0 smooth) ++ [.run 1 0 smooth])
    (fun s a s' h => ⟨leaseHeld_of_heldNow (System.step_of_guarded h).1,
      (System.step_of_guarded h).2⟩) rfl (by decide +kernel)
  simp only [Bool.and_eq_true, beq_iff_eq] at hp
  obtain ⟨⟨hacknowledged, hanswers⟩, htask⟩ := hp
  exact ⟨s, hs, hacknowledged, hanswers, htask, exactlyOnce hs⟩

end TaiSkeleton.Conversations
