import TaiSkeleton.Conversations.SendLedger

/-!
# Resuming a channel answer

The chunks of a channel answer are ledgered as the provider takes them, and another worker
resumes after what the ledger holds. The ledger is not fenced: a worker whose lease was taken
over still appends, and one that refreshes a lapsed lease after a takeover goes on from where it
was. Where each refresh and each append finds the claim still its worker's own (`Fenced`), the
ledger describes what has been sent of the answer, and the record becomes provisional only when
that is all of it.
-/

namespace TaiSkeleton.Conversations

open Lib

/-! ## The fence that is missing -/

/-- The task is in its chunk loop. -/
def Task.loops : Task → Bool
  | .sending _ _ _ | .notifying _ _ _ _ | .ledgering _ _ _ _ _ => true
  | _ => false

/-- Each refresh of a lease, and each append, finds the claim of the record still the worker's
own; the ledger does not run out while a worker is in its chunk loop. -/
def Fenced (s : World) : Label → Prop
  | .run token _ _ =>
    match s.tasks token with
    | .sending _ _ (_ :: _) => ∀ row, s.record.row? = some row →
      row.deliveryStatus = .pendingDelivery → row.claim.map Lease.token = some token
    | .ledgering _ _ _ _ _ =>
      ∃ row, s.record.row? = some row ∧ row.claim.map Lease.token = some token
    | _ => True
  | .expireLedger => ∀ token, (s.tasks token).loops = false
  | _ => True

/-- The deliveries in which the fence holds. -/
def fencedDelivery (settings : DeliverySettings) : System World Label :=
  (delivery settings).when Fenced

/-! ## The invariant -/

/-- What a task relies on. -/
def TaskOk (s : World) (token : Token) : Task → Prop
  | .counting answer _ | .resuming answer _ _ =>
    ∀ row, s.record.row? = some row → row.data.answer = some answer
  | .clearing => ∀ row, s.record.row? = some row → row.deliveryStatus ≠ .pendingDelivery
  | .sending _ _ chunks =>
    (chunks = [] → ∀ row answer, Pending s.record row answer →
      charsSent s.ledger = answer.length) ∧
    ∀ answer, Holds s.record token answer → Remaining answer s.ledger chunks
  | .notifying _ _ chunk rest => isBlank chunk = false ∧
    ∀ answer, Holds s.record token answer → Remaining answer s.ledger (chunk :: rest)
  | .ledgering _ _ chunk _ rest =>
    ∀ answer, Holds s.record token answer → Remaining answer s.ledger (chunk :: rest) ∧
      (isBlank chunk = false → (spoken answer s.ledger ++ [chunk]).Sublist s.sent)
  | _ => True

structure ChannelInv (s : World) : Prop where
  fresh : s.created = false → s.record.row? = none ∧ s.ledger = []
  claimed : ∀ token, (s.tasks token).hasClaimed = true → s.created = true ∧ Past s.record
  intake : ∀ row, s.record.row? = some row → row.deliveryStatus = .accepted → s.ledger = []
  owner : ∀ row lease, s.record.row? = some row → row.claim = some lease →
    row.deliveryStatus = .pendingDelivery ∧ s.winner = some lease.token
  tasks : ∀ token, TaskOk s token (s.tasks token)
  ledger : ∀ row answer, s.record.row? = some row → row.data.answer = some answer →
    charsSent s.ledger ≤ answer.length ∧ (spoken answer s.ledger).Sublist s.sent

/-! ## The steps -/

variable {settings : DeliverySettings} {s s' : World} {token : Token} {now : Time}

/-- A task that has not claimed relies on nothing. -/
theorem TaskOk.of_not_claimed {task : Task} (h : task.hasClaimed = false) :
    TaskOk s token task := by
  cases task with
  | idle | claiming | ended | waitClaiming | answered => trivial
  | _ => cases h

/-- What a task relies on stands while the record keeps its content and the ledger stands. -/
theorem TaskOk.kept {task : Task} {status : DeliveryStatus} (h : TaskOk s token task)
    (hkept : Kept status s.record s'.record) (hafter : status.isAfter = true)
    (hledger : s'.ledger = s.ledger) (hsent : s.sent.Sublist s'.sent) : TaskOk s' token task := by
  have hdata : ∀ answer, (∀ row, s.record.row? = some row → row.data.answer = some answer) →
      ∀ row', s'.record.row? = some row' → row'.data.answer = some answer := by
    intro answer hrows row' hrow'
    obtain ⟨row, hrow, hdata, -⟩ := hkept row' hrow'
    rw [hdata]
    exact hrows row hrow
  cases task with
  | counting answer maxChars => exact hdata answer h
  | resuming answer maxChars attempts => exact hdata answer h
  | clearing =>
    intro row' hrow' hpending
    obtain ⟨row, hrow, -, ⟨hstatus, -⟩ | ⟨-, hstatus⟩⟩ := hkept row' hrow'
    · exact h row hrow (hstatus ▸ hpending)
    · rw [← hstatus, hpending] at hafter
      cases hafter
  | sending attempts outboundIds chunks =>
    refine ⟨fun hnil row' answer hp => ?_, fun answer hh => ?_⟩
    · obtain ⟨row, hp, -⟩ := hkept.pending hafter hp
      rw [hledger]
      exact h.1 hnil row answer hp
    · rw [hledger]
      exact h.2 answer (hkept.holds hafter hh)
  | notifying attempts outboundIds chunk rest =>
    refine ⟨h.1, fun answer hh => ?_⟩
    rw [hledger]
    exact h.2 answer (hkept.holds hafter hh)
  | ledgering attempts outboundIds chunk ids rest =>
    intro answer hh
    obtain ⟨hremaining, hspoken⟩ := h answer (hkept.holds hafter hh)
    rw [hledger]
    exact ⟨hremaining, fun hblank => (hspoken hblank).trans hsent⟩
  | _ => trivial

theorem TaskOk.onRecord {task : Task} {config : Config} :
    TaskOk s token (task.onRecord settings config s.record.row?) := by
  cases task with
  | reading =>
    cases hrow : s.record.row? with
    | none => trivial
    | some row =>
      simp only [Task.onRecord]
      repeat' split
      all_goals try trivial
      next hanswer _ _ _ _ =>
        intro row' hrow'
        obtain rfl := Option.some.inj (hrow.symm.trans hrow')
        exact hanswer
  | _ => trivial

theorem TaskOk.onAttempts {task : Task} {attempts : ℤ} (h : TaskOk s token task) :
    TaskOk s token (task.onAttempts attempts) := by
  cases task with
  | counting answer maxChars => exact h
  | _ => trivial

/-- A worker resumes with what is left of the answer. -/
theorem TaskOk.onEntries {task : Task} (h : TaskOk s token task) :
    TaskOk s token (task.onEntries settings s.ledger) := by
  cases task with
  | resuming answer maxChars attempts =>
    unfold Task.onEntries
    dsimp only
    split
    · trivial
    · rename_i hmore
      split
      · trivial
      · trivial
      · split
        · trivial
        · rename_i chunks hchunks
          have hremaining : Remaining answer s.ledger chunks := by
            split_ifs at hchunks with hnil
            · obtain rfl := Option.some.inj hchunks
              exact ⟨hnil.symm, by simp⟩
            · exact ⟨splitMessage_flatten hchunks, fun chunk hmem =>
                splitMessage_ne_nil hchunks hnil hmem⟩
          refine ⟨?_, ?_⟩
          · rintro rfl row answer' ⟨hrow, -, hanswer⟩
            obtain rfl := Option.some.inj ((h row hrow).symm.trans hanswer)
            have hlength := congrArg List.length hremaining.1
            rw [List.flatten_nil, List.length_nil, List.length_drop] at hlength
            unfold charsSent at *
            omega
          · rintro answer' ⟨row, ⟨hrow, -, hanswer⟩, -⟩
            obtain rfl := Option.some.inj ((h row hrow).symm.trans hanswer)
            exact hremaining
  | _ => trivial

/-- A task outside its chunk loop does not rely on the ledger. -/
theorem TaskOk.of_not_loops {task : Task}
    (h : TaskOk s token task) (hloops : task.loops = false) (hrecord : s'.record = s.record) :
    TaskOk s' token task := by
  cases task with
  | sending | notifying | ledgering => cases hloops
  | counting | resuming | clearing =>
    unfold TaskOk at *
    rw [hrecord]
    exact h
  | _ => trivial

section tasks

variable {task : Task}

theorem Task.eq_of_append {entry : SentChunk} (h : task.cmd settings = some (.append entry)) :
    ∃ attempts outboundIds chunk ids rest,
      task = .ledgering attempts outboundIds chunk ids rest ∧ entry = ⟨chunk.length, ids⟩ := by
  cases task with
  | ledgering attempts outboundIds chunk ids rest =>
    exact ⟨_, _, _, _, _, rfl, (Cmd.append.inj (Option.some.inj h)).symm⟩
  | sending attempts outboundIds chunks => cases chunks <;> cases h
  | posted attempt status =>
    simp only [Task.cmd] at h
    split_ifs at h <;> cases h
  | _ => cases h

theorem Task.eq_of_clear (h : task.cmd settings = some .clear) : task = .clearing := by
  cases task with
  | clearing => rfl
  | sending attempts outboundIds chunks => cases chunks <;> cases h
  | posted attempt status =>
    simp only [Task.cmd] at h
    split_ifs at h <;> cases h
  | _ => cases h

theorem Task.eq_of_notify {message : Text} (h : task.cmd settings = some (.notify message)) :
    (∃ attempts, task = .refusing attempts ∧ message = oversizedAnswerText) ∨
      ∃ attempts outboundIds rest, task = .notifying attempts outboundIds message rest := by
  cases task with
  | refusing attempts => exact .inl ⟨_, rfl, (Cmd.notify.inj (Option.some.inj h)).symm⟩
  | notifying attempts outboundIds chunk rest =>
    obtain rfl := Cmd.notify.inj (Option.some.inj h)
    exact .inr ⟨_, _, _, rfl⟩
  | sending attempts outboundIds chunks => cases chunks <;> cases h
  | posted attempt status =>
    simp only [Task.cmd] at h
    split_ifs at h <;> cases h
  | _ => cases h

theorem Task.eq_of_markProvisional {outboundIds : List String} {attempts : ℤ}
    (h : task.cmd settings = some (.markProvisional outboundIds attempts)) :
    task = .sending attempts outboundIds [] := by
  cases task with
  | sending attempts' outboundIds' chunks =>
    cases chunks with
    | nil =>
      obtain ⟨rfl, rfl⟩ := Cmd.markProvisional.inj (Option.some.inj h)
      rfl
    | cons chunk rest => cases h
  | posted attempt status =>
    simp only [Task.cmd] at h
    split_ifs at h <;> cases h
  | _ => cases h

end tasks

/-- After its status write a task clears the ledger at most. -/
theorem TaskOk.onCode {task : Task} {cmd : Cmd} {code : ℤ} (hcmd : task.cmd settings = some cmd)
    (hne : ∀ leaseSeconds, cmd ≠ .claimDelivery leaseSeconds)
    (hafter : code = 1 → ∀ row, s.record.row? = some row →
      row.deliveryStatus ≠ .pendingDelivery) :
    TaskOk s token (task.onCode settings code) := by
  cases task with
  | claiming | waitClaiming => exact absurd (Option.some.inj hcmd).symm (hne _)
  | failing attempts clears =>
    simp only [Task.onCode]
    split_ifs with hclears
    · simp only [Bool.and_eq_true, beq_iff_eq] at hclears
      exact hafter hclears.2
    · trivial
  | sending attempts outboundIds chunks =>
    cases chunks with
    | nil =>
      simp only [Task.onCode]
      split_ifs with hcode
      · exact hafter hcode
      · trivial
    | cons chunk rest => exact absurd (Option.some.inj hcmd).symm (hne _)
  | posted attempt status =>
    simp only [Task.onCode]
    split_ifs <;> trivial
  | waitMarking attempts =>
    simp only [Task.onCode]
    split_ifs <;> trivial
  | _ => trivial

/-- Where the record is not to be delivered any more, the chunk loops rely on nothing. -/
theorem TaskOk.of_over {task : Task} (h : TaskOk s token task)
    (hover : ∀ row, s.record.row? = some row → row.deliveryStatus ≠ .pendingDelivery)
    (hrecord : s'.record = s.record) : TaskOk s' token task := by
  have hnot : ∀ answer, ¬ Holds s'.record token answer := by
    rintro answer ⟨row, ⟨hrow, hstatus, -⟩, -⟩
    exact hover row (hrecord ▸ hrow) hstatus
  cases task with
  | sending attempts outboundIds chunks =>
    refine ⟨?_, fun answer hh => absurd hh (hnot answer)⟩
    rintro - row answer ⟨hrow, hstatus, -⟩
    exact absurd hstatus (hover row (hrecord ▸ hrow))
  | notifying attempts outboundIds chunk rest =>
    exact ⟨h.1, fun answer hh => absurd hh (hnot answer)⟩
  | ledgering attempts outboundIds chunk ids rest => exact fun answer hh => absurd hh (hnot answer)
  | _ => exact h.of_not_loops rfl hrecord

namespace ChannelInv

/-- A step after which at most one task has gone on, and the ledger stands. -/
theorem goOn {task : Task} {status : DeliveryStatus} (h : ChannelInv s)
    (hcreated : s'.created = s.created) (hwinner : s'.winner = s.winner)
    (hkept : Kept status s.record s'.record) (hafter : status.isAfter = true)
    (hledger : s'.ledger = s.ledger) (hsent : s.sent.Sublist s'.sent)
    (htasks : s'.tasks = Function.update s.tasks token task)
    (hclaimed : task.hasClaimed = true → (s.tasks token).hasClaimed = true)
    (hok : TaskOk s' token task) : ChannelInv s' := by
  refine ⟨fun hnew => ?_, fun token' htask => ?_, fun row' hrow' hstatus' => ?_,
    fun row' lease hrow' hlease => ?_, fun token' => ?_, fun row' answer hrow' hanswer => ?_⟩
  · obtain ⟨hnone, hnil⟩ := h.fresh (hcreated ▸ hnew)
    exact ⟨hkept.row?_eq_none hnone, hledger ▸ hnil⟩
  · rw [htasks, Function.update_apply] at htask
    have hbefore : ∃ token, (s.tasks token).hasClaimed = true := by
      split_ifs at htask
      · exact ⟨token, hclaimed htask⟩
      · exact ⟨token', htask⟩
    obtain ⟨token₀, hbefore⟩ := hbefore
    obtain ⟨hwas, hpast⟩ := h.claimed token₀ hbefore
    exact ⟨hcreated ▸ hwas, hkept.past hafter hpast⟩
  · rw [hledger]
    obtain ⟨row, hrow, -, ⟨hstatus, -⟩ | ⟨-, hstatus⟩⟩ := hkept row' hrow'
    · exact h.intake row hrow (hstatus ▸ hstatus')
    · rw [← hstatus, hstatus'] at hafter
      cases hafter
  · rw [hwinner]
    obtain ⟨row, hrow, -, ⟨hstatus, hclaim⟩ | ⟨hnone, -⟩⟩ := hkept row' hrow'
    · rw [hstatus]
      exact h.owner row lease hrow (hclaim ▸ hlease)
    · rw [hnone] at hlease
      cases hlease
  · rw [htasks, Function.update_apply]
    split_ifs with heq
    · exact heq ▸ hok
    · exact (h.tasks token').kept hkept hafter hledger hsent
  · obtain ⟨row, hrow, hdata, -⟩ := hkept row' hrow'
    obtain ⟨hle, hspoken⟩ := h.ledger row answer hrow (hdata ▸ hanswer)
    rw [hledger]
    exact ⟨hle, hspoken.trans hsent⟩

/-- A step of which the tasks take no part. -/
theorem env {status : DeliveryStatus} {r : Record Content} (h : ChannelInv s)
    (hkept : Kept status s.record r) (hafter : status.isAfter = true) :
    ChannelInv { s with record := r } :=
  h.goOn rfl rfl hkept hafter rfl (List.Sublist.refl _) (Function.update_eq_self 0 s.tasks).symm id
    ((h.tasks 0).kept hkept hafter rfl (.refl _))

/-- A claim that is won: the record stays as it is but for its claim, and no other worker holds
it. -/
theorem won {task : Task} {row : Row Content} {expiry : Time} (h : ChannelInv s)
    (hcreated : s'.created = s.created) (hwinner : s'.winner = some token)
    (hledger : s'.ledger = s.ledger) (hsent : s'.sent = s.sent)
    (htasks : s'.tasks = Function.update s.tasks token task)
    (hrow : s.record.row? = some row) (hstatus : row.deliveryStatus = .pendingDelivery)
    (hrow' : s'.record.row? = some { row with claim := some ⟨token, expiry⟩ })
    (hok : TaskOk s' token task) : ChannelInv s' := by
  have hwas : s.created = true := by
    by_contra hne
    rw [(h.fresh (by simpa using hne)).1] at hrow
    cases hrow
  refine ⟨fun hnew => ?_, fun token' htask => ?_, fun row' hsome hstatus' => ?_,
    fun row' lease hsome hlease => ?_, fun token' => ?_, fun row' answer hsome hanswer => ?_⟩
  · rw [hcreated, hwas] at hnew
    cases hnew
  · refine ⟨hcreated ▸ hwas, fun row' hsome => ?_⟩
    obtain rfl := Option.some.inj (hrow'.symm.trans hsome)
    rw [hstatus]
    decide
  · obtain rfl := Option.some.inj (hrow'.symm.trans hsome)
    rw [hstatus] at hstatus'
    cases hstatus'
  · obtain rfl := Option.some.inj (hrow'.symm.trans hsome)
    obtain rfl := Option.some.inj hlease
    exact ⟨hstatus, hwinner⟩
  · rw [htasks, Function.update_apply]
    split_ifs with heq
    · exact heq ▸ hok
    · have hother : ∀ answer, ¬ Holds s'.record token' answer := by
        rintro answer ⟨row', ⟨hsome, -⟩, hclaim⟩
        obtain rfl := Option.some.inj (hrow'.symm.trans hsome)
        exact heq (Option.some.inj hclaim).symm
      have htask := h.tasks token'
      cases hcase : s.tasks token' with
      | counting answer maxChars | resuming answer maxChars attempts =>
        rw [hcase] at htask
        intro row' hsome
        obtain rfl := Option.some.inj (hrow'.symm.trans hsome)
        exact htask row hrow
      | clearing =>
        rw [hcase] at htask
        exact absurd hstatus (htask row hrow)
      | sending attempts outboundIds chunks =>
        rw [hcase] at htask
        refine ⟨?_, fun answer hh => absurd hh (hother answer)⟩
        rintro hnil row' answer ⟨hsome, -, hanswer⟩
        obtain rfl := Option.some.inj (hrow'.symm.trans hsome)
        rw [hledger]
        exact htask.1 hnil row answer ⟨hrow, hstatus, hanswer⟩
      | notifying attempts outboundIds chunk rest =>
        rw [hcase] at htask
        exact ⟨htask.1, fun answer hh => absurd hh (hother answer)⟩
      | ledgering attempts outboundIds chunk ids rest =>
        exact fun answer hh => absurd hh (hother answer)
      | _ => trivial
  · obtain rfl := Option.some.inj (hrow'.symm.trans hsome)
    rw [hledger, hsent]
    exact h.ledger row answer hrow hanswer

/-- The ledger is cleared, or has run out. -/
theorem cleared (h : ChannelInv s) (hcreated : s'.created = s.created)
    (hwinner : s'.winner = s.winner) (hrecord : s'.record = s.record) (hledger : s'.ledger = [])
    (hclaimed : ∀ token, (s'.tasks token).hasClaimed = true → (s.tasks token).hasClaimed = true)
    (hok : ∀ token, TaskOk s' token (s'.tasks token)) : ChannelInv s' := by
  refine ⟨fun hnew => ?_, fun token htask => ?_, fun _ _ _ => hledger, ?_, hok,
    fun row answer _ _ => ?_⟩
  · rw [hrecord]
    exact ⟨(h.fresh (hcreated ▸ hnew)).1, hledger⟩
  · rw [hrecord, hcreated]
    exact h.claimed token (hclaimed token htask)
  · rw [hrecord, hwinner]
    exact h.owner
  · rw [hledger]
    exact ⟨Nat.zero_le _, List.nil_sublist _⟩

/-- The worker that the record's claim names ledgers a chunk. -/
theorem appended {attempts : ℤ} {outboundIds ids : List String} {chunk : Text} {rest : List Text}
    {row : Row Content} (h : ChannelInv s)
    (htask : s.tasks token = .ledgering attempts outboundIds chunk ids rest)
    (hrow : s.record.row? = some row) (hclaim : row.claim.map Lease.token = some token) :
    ChannelInv { s.goOn token (.sending attempts (outboundIds ++ ids) rest) with
      ledger := s.ledger ++ [⟨chunk.length, ids⟩] } := by
  obtain ⟨lease, hlease, rfl⟩ := Option.map_eq_some_iff.mp hclaim
  have hstatus := (h.owner row lease hrow hlease).1
  have hok := h.tasks lease.token
  rw [htask] at hok
  have hholds : ∀ row' answer, s.record.row? = some row' → row'.data.answer = some answer →
      Holds s.record lease.token answer := by
    intro row' answer hrow' hanswer
    obtain rfl := Option.some.inj (hrow.symm.trans hrow')
    exact ⟨row, ⟨hrow, hstatus, hanswer⟩, hclaim⟩
  refine ⟨fun hnew => ?_, fun token' hclaimed => ?_, fun row' hrow' hstatus' => ?_,
    h.owner, fun token' => ?_, fun row' answer hrow' hanswer => ?_⟩
  · rw [(h.fresh hnew).1] at hrow
    cases hrow
  · refine h.claimed (if token' = lease.token then lease.token else token') ?_
    change (Function.update s.tasks lease.token _ token').hasClaimed = true at hclaimed
    rw [Function.update_apply] at hclaimed
    split_ifs with heq
    · rw [htask]
      rfl
    · rwa [if_neg heq] at hclaimed
  · obtain rfl := Option.some.inj (hrow.symm.trans hrow')
    rw [hstatus] at hstatus'
    cases hstatus'
  · show TaskOk _ token' (Function.update s.tasks lease.token _ token')
    rw [Function.update_apply]
    split_ifs with heq
    · subst heq
      refine ⟨?_, fun answer hh => ((hok answer hh).1).tail _⟩
      rintro rfl row' answer ⟨hrow', -, hanswer⟩
      obtain ⟨hremaining, -⟩ := hok answer (hholds row' answer hrow' hanswer)
      have hlength := congrArg List.length (hremaining.tail ids).1
      have hle := hremaining.length_le
      rw [List.flatten_nil, List.length_nil, List.length_drop, charsSent_concat] at hlength
      rw [charsSent_concat]
      show charsSent s.ledger + chunk.length = answer.length
      change 0 = answer.length - (charsSent s.ledger + chunk.length) at hlength
      omega
    · have hother : ∀ answer, ¬ Holds s.record token' answer := by
        rintro answer ⟨row', ⟨hrow', -⟩, hclaim'⟩
        obtain rfl := Option.some.inj (hrow.symm.trans hrow')
        exact heq (Option.some.inj (hclaim'.symm.trans hclaim))
      have hok' := h.tasks token'
      cases hcase : s.tasks token' with
      | sending attempts' outboundIds' chunks =>
        rw [hcase] at hok'
        refine ⟨?_, fun answer hh => absurd hh (hother answer)⟩
        -- this worker's chunk is still to be ledgered, so no other has come to the end
        rintro hnil row' answer ⟨hrow', hpending, hanswer⟩
        have hall := hok'.1 hnil row' answer ⟨hrow', hpending, hanswer⟩
        have hle := (hok answer (hholds row' answer hrow' hanswer)).1.length_le
        omega
      | notifying attempts' outboundIds' chunk' rest' =>
        rw [hcase] at hok'
        exact ⟨hok'.1, fun answer hh => absurd hh (hother answer)⟩
      | ledgering attempts' outboundIds' chunk' ids' rest' =>
        exact fun answer hh => absurd hh (hother answer)
      | counting | resuming | clearing =>
        rw [hcase] at hok'
        exact hok'
      | _ => trivial
  · obtain ⟨hremaining, hspoken⟩ := hok answer (hholds row' answer hrow' hanswer)
    refine ⟨?_, ?_⟩
    · rw [charsSent_concat]
      exact hremaining.length_le.1
    · rw [spoken_concat, hremaining.head]
      show List.Sublist _ s.sent
      cases hblank : isBlank chunk with
      | true =>
        rw [List.filter_singleton, hblank]
        simpa using (h.ledger row' answer hrow' hanswer).2
      | false =>
        rw [List.filter_singleton, hblank]
        simpa using hspoken hblank

theorem perform {input : Input} {cmd : Cmd} (h : ChannelInv s)
    (hcmd : (s.tasks token).cmd settings = some cmd) (hok : Fenced s (.run token now input)) :
    ChannelInv (s.perform settings token now input cmd) := by
  have hclaimed : (∀ leaseSeconds, cmd ≠ .claimDelivery leaseSeconds) →
      ∀ task : Task, task.hasClaimed = true → (s.tasks token).hasClaimed = true :=
    fun hne _ _ => Task.hasClaimed_of_cmd hcmd hne
  cases cmd with
  | claimDelivery leaseSeconds =>
    by_cases hcode : (claimDelivery now token leaseSeconds s.record).2 = 1
    · obtain ⟨-, row, hrow, hstatus, hrow'⟩ := claimDelivery_eq_one hcode
      refine h.won rfl (if_pos hcode) rfl rfl rfl hrow hstatus hrow' ?_
      rw [hcode]
      cases htask : s.tasks token with
      | sending attempts outboundIds chunks =>
        cases chunks with
        | nil =>
          rw [htask] at hcmd
          cases hcmd
        | cons chunk rest =>
          unfold Fenced at hok
          simp only [htask] at hok
          have hown := hok row hrow hstatus
          have hremaining : ∀ answer, Holds (claimDelivery now token leaseSeconds s.record).1 token
              answer → Remaining answer s.ledger (chunk :: rest) := by
            rintro answer ⟨row', ⟨hsome, -, hanswer⟩, -⟩
            obtain rfl := Option.some.inj (hrow'.symm.trans hsome)
            have htask' := h.tasks token
            rw [htask] at htask'
            exact htask'.2 answer ⟨row, ⟨hrow, hstatus, hanswer⟩, hown⟩
          simp only [Task.onCode, ne_eq, not_true_eq_false, if_false]
          split_ifs with hblank
          · refine fun answer hh => ⟨hremaining answer hh, fun hnot => ?_⟩
            rw [hblank] at hnot
            cases hnot
          · exact ⟨by simpa using hblank, hremaining⟩
      | posted attempt status =>
        simp only [Task.onCode]
        split_ifs <;> trivial
      | claiming | waitClaiming => trivial
      | _ =>
        rw [htask] at hcmd
        cases hcmd
    · refine h.goOn rfl (if_neg hcode) (.of_eq .failed (claimDelivery_ne_one hcode)) rfl
        rfl (.refl _) rfl ?_ ?_
      · rw [Task.onCode_ne_one hcode]
        intro hended
        cases hended
      · rw [Task.onCode_ne_one hcode]
        trivial
  | getRecord =>
    exact h.goOn rfl rfl (.refl .failed _) rfl rfl (.refl _) rfl
      (hclaimed (by simp) _) (TaskOk.onRecord.kept (.refl .failed _) rfl rfl (.refl _))
  | bumpAttempt =>
    exact h.goOn rfl rfl (kept_bumpAttempt .failed) rfl rfl (.refl _) rfl
      (hclaimed (by simp) _)
      ((h.tasks token).onAttempts.kept (kept_bumpAttempt .failed) rfl rfl (.refl _))
  | markProvisional outboundIds attempts =>
    refine h.goOn rfl rfl kept_markProvisional rfl rfl (.refl _) rfl (hclaimed (by simp) _)
      (.onCode hcmd (by simp) fun hcode row hrow => ?_)
    rw [status_of_markProvisional hcode hrow]
    decide
  | markDelivered outboundIds attempts =>
    refine h.goOn rfl rfl kept_markDelivered rfl rfl (.refl _) rfl (hclaimed (by simp) _)
      (.onCode hcmd (by simp) fun hcode row hrow => ?_)
    obtain ⟨-, -, row', hrow', hstatus⟩ := markDelivered_eq_one hcode
    obtain rfl := Option.some.inj (hrow.symm.trans hrow')
    rw [hstatus]
    decide
  | markFailed attempts =>
    refine h.goOn rfl rfl kept_markFailed rfl rfl (.refl _) rfl (hclaimed (by simp) _)
      (.onCode hcmd (by simp) fun hcode row hrow => ?_)
    rw [status_of_markFailed hcode hrow]
    decide
  | sentChunks =>
    exact h.goOn rfl rfl (.refl .failed _) rfl rfl (.refl _) rfl
      (hclaimed (by simp) _) ((h.tasks token).onEntries.kept (.refl .failed _) rfl rfl (.refl _))
  | append entry =>
    obtain ⟨attempts, outboundIds, chunk, ids, rest, htask, rfl⟩ := Task.eq_of_append hcmd
    unfold Fenced at hok
    simp only [htask] at hok
    obtain ⟨row, hrow, hclaim⟩ := hok
    have hinv := h.appended htask hrow hclaim
    simpa only [World.perform, htask, Task.onAppended] using hinv
  | clear =>
    have htask := Task.eq_of_clear hcmd
    have hover : ∀ row, s.record.row? = some row → row.deliveryStatus ≠ .pendingDelivery := by
      have hok' := h.tasks token
      rw [htask] at hok'
      exact hok'
    refine h.cleared rfl rfl rfl rfl (fun token' hclaimed' => ?_) (fun token' => ?_)
    · change (Function.update s.tasks token .ended token').hasClaimed = true at hclaimed'
      rw [Function.update_apply] at hclaimed'
      split_ifs at hclaimed'
      · cases hclaimed'
      · exact hclaimed'
    · show TaskOk _ token' (Function.update s.tasks token .ended token')
      rw [Function.update_apply]
      split_ifs
      · trivial
      · exact (h.tasks token').of_over hover rfl
  | notify message =>
    have hgrown : s.sent.Sublist (s.perform settings token now input (.notify message)).sent := by
      simp only [World.perform]
      split
      · exact List.sublist_append_left _ _
      · exact List.sublist_append_left _ _
      · exact .refl _
    refine h.goOn rfl rfl (.refl .failed _) rfl rfl hgrown rfl
      (hclaimed (by simp) _) ?_
    obtain ⟨attempts, htask, -⟩ | ⟨attempts, outboundIds, rest, htask⟩ := Task.eq_of_notify hcmd
    · rw [htask]
      trivial
    · have hok' := h.tasks token
      rw [htask] at hok' ⊢
      cases hnotified : input.notified with
      | accepted ids =>
        intro answer hh
        refine ⟨hok'.2 answer hh, fun _ => ?_⟩
        obtain ⟨row, ⟨hrow, -, hanswer⟩, -⟩ := hh
        simp only [World.perform, hnotified]
        exact (h.ledger row answer hrow hanswer).2.append (.refl _)
      | timeout taken => trivial
      | refused => trivial
  | post =>
    refine h.goOn rfl rfl (.refl .failed _) rfl rfl (.refl _) rfl
      (hclaimed (by simp) _) ?_
    cases s.tasks token <;> trivial

/-- A record whose turn is completed: nothing has claimed it, and nothing is ledgered. -/
theorem completed {data : Content} (h : ChannelInv s)
    (hcode : (completeTurn settings.toConversationsSettings data now s.record).2 = 1) {n : ℕ} :
    ChannelInv { s with
      record := (completeTurn settings.toConversationsSettings data now s.record).1
      completions := n } := by
  obtain ⟨row, row', hrow, hstatus, hrow', hstatus', hclaim⟩ := completeTurn_eq_one hcode
  have hno : ∀ token, (s.tasks token).hasClaimed = false := by
    intro token
    by_contra hclaimed
    exact (h.claimed token (by simpa using hclaimed)).2 row hrow hstatus
  have hnil := h.intake row hrow hstatus
  refine ⟨fun hnew => ?_, fun token htask => ?_, fun _ _ _ => hnil,
    fun row'' lease hsome hlease => ?_,
    fun token => .of_not_claimed (hno token), fun row'' answer hsome hanswer => ?_⟩
  · rw [(h.fresh hnew).1] at hrow
    cases hrow
  · rw [hno token] at htask
    cases htask
  · obtain rfl := Option.some.inj (hrow'.symm.trans hsome)
    have hpending := (h.owner row lease hrow (hclaim ▸ hlease)).1
    rw [hstatus] at hpending
    cases hpending
  · show charsSent s.ledger ≤ _ ∧ List.Sublist (spoken answer s.ledger) _
    rw [hnil]
    exact ⟨Nat.zero_le _, List.nil_sublist _⟩

theorem step {a : Label} (h : ChannelInv s) (hok : Fenced s a)
    (hstep : s.next settings a = some s') : ChannelInv s' := by
  cases a with
  | create data status intakeToken now =>
    have hcreated : s.created = false := by
      by_contra hne
      simp [World.next, hne] at hstep
    simp only [World.next, hcreated, Bool.false_eq_true, if_false, Option.some.injEq] at hstep
    subst hstep
    obtain ⟨hnone, hnil⟩ := h.fresh hcreated
    have hno : ∀ token, (s.tasks token).hasClaimed = false := by
      intro token
      by_contra hclaimed
      have hwas := (h.claimed token (by simpa using hclaimed)).1
      rw [hcreated] at hwas
      cases hwas
    refine ⟨fun hnew => (by cases hnew), fun token htask => ?_, fun _ _ _ => hnil,
      fun row lease hrow hlease => ?_, fun token => .of_not_claimed (hno token),
      fun row answer _ _ => ?_⟩
    · rw [hno token] at htask
      cases htask
    · rw [claim_createRecord hnone hrow] at hlease
      cases hlease
    · show charsSent s.ledger ≤ _ ∧ List.Sublist (spoken answer s.ledger) _
      rw [hnil]
      exact ⟨Nat.zero_le _, List.nil_sublist _⟩
  | completeTurn data now =>
    obtain rfl := Option.some.inj hstep
    by_cases hcode : (completeTurn settings.toConversationsSettings data now s.record).2 = 1
    · exact h.completed hcode
    · rw [if_neg hcode]
      exact h.env (.of_eq .failed (completeTurn_ne_one hcode)) rfl
  | claimIntake now token leaseSeconds =>
    obtain rfl := Option.some.inj hstep
    exact h.env (kept_claimIntake .failed) rfl
  | deleteRecord =>
    obtain rfl := Option.some.inj hstep
    exact h.env (show Kept .failed _ _ from fun row' hrow' => by cases hrow') rfl
  | receipt receipt now =>
    obtain rfl := Option.some.inj hstep
    exact h.env kept_ingestReceipt (by cases receipt <;> rfl)
  | expire =>
    obtain rfl := Option.some.inj hstep
    exact h.env (kept_expire .failed) rfl
  | expireLedger =>
    obtain rfl := Option.some.inj hstep
    exact h.cleared rfl rfl rfl rfl (fun _ => id) fun token =>
      (h.tasks token).of_not_loops (hok token) rfl
  | tick now =>
    simp only [World.next, Option.ite_none_right_eq_some, Option.some.injEq] at hstep
    obtain ⟨-, rfl⟩ := hstep
    exact ⟨h.fresh, h.claimed, h.intake, h.owner,
      fun token => (h.tasks token).kept (.refl .failed _) rfl rfl (.refl _), h.ledger⟩
  | deliver token =>
    simp only [World.next, Option.ite_none_right_eq_some, Option.some.injEq] at hstep
    obtain ⟨-, rfl⟩ := hstep
    exact h.goOn rfl rfl (.refl .failed _) rfl rfl (.refl _) rfl
      (fun hclaimed => by cases hclaimed) trivial
  | waitDeliver token =>
    simp only [World.next, Option.ite_none_right_eq_some, Option.some.injEq] at hstep
    obtain ⟨-, rfl⟩ := hstep
    exact h.goOn rfl rfl (.refl .failed _) rfl rfl (.refl _) rfl
      (fun hclaimed => by cases hclaimed) trivial
  | run token now input =>
    simp only [World.next, Option.map_eq_some_iff] at hstep
    obtain ⟨cmd, hcmd, rfl⟩ := hstep
    exact h.perform hcmd hok
  | crash token =>
    obtain rfl := Option.some.inj hstep
    exact h.goOn rfl rfl (.refl .failed _) rfl rfl (.refl _) rfl
      (fun hclaimed => by cases hclaimed) trivial

theorem start : ChannelInv .start where
  fresh _ := ⟨rfl, rfl⟩
  claimed token h := by cases h
  intake row h := by cases h
  owner row lease h := by cases h
  tasks token := trivial
  ledger row answer h := by cases h

end ChannelInv

/-! ## Every run -/

/-- The task can come to ledger a chunk without another first claim. -/
def Task.speaks : Task → Bool
  | .reading | .counting _ _ | .resuming _ _ _ => true
  | task => task.loops

/-- The task has its first claim still before it. -/
def Task.starts : Task → Bool
  | .idle | .claiming | .waitClaiming => true
  | _ => false

/-- The worker is past its first claim, and no longer the last that won one where it could still
ledger a chunk. -/
def Overtaken (token : Token) (s : World) : Prop :=
  (s.tasks token).starts = false ∧ ((s.tasks token).speaks = true → s.winner ≠ some token)

/-- What holds of a state, and of every run on from it. -/
structure Resumes (settings : DeliverySettings) (s : World) : Prop where
  /-- A worker that another one has taken over from ledgers nothing any more. -/
  overtaken : ∀ token s' s'' now input entry, (s.tasks token).hasClaimed = true →
    s.winner ≠ some token → (fencedDelivery settings).Run s s' →
    (fencedDelivery settings).step s' (.run token now input) s'' →
    s''.ledger ≠ s'.ledger ++ [entry]
  /-- The ledger counts off a beginning of the answer, whose messages the provider has taken in
  order. -/
  ledgered : ∀ row answer, s.record.row? = some row → row.data.answer = some answer →
    charsSent s.ledger ≤ answer.length ∧ (spoken answer s.ledger).Sublist s.sent
  /-- A record that becomes provisional is ledgered to its end. -/
  covered : ∀ a s' row row' answer, (fencedDelivery settings).step s a s' →
    s.record.row? = some row → row.deliveryStatus ≠ .provisional →
    s'.record.row? = some row' → row'.deliveryStatus = .provisional →
    row'.data.answer = some answer → charsSent s'.ledger = answer.length

section speaks

variable {task : Task}

theorem Task.starts_of_hasClaimed (h : task.hasClaimed = true) : task.starts = false := by
  cases task <;> first | rfl | cases h

theorem Task.onCode_speaks {code : ℤ} (hstarts : task.starts = false) :
    (task.onCode settings code).starts = false ∧
      ((task.onCode settings code).speaks = true → task.speaks = true) := by
  cases task with
  | idle | claiming | waitClaiming => cases hstarts
  | sending attempts outboundIds chunks =>
    cases chunks <;> simp only [onCode] <;> split_ifs <;> exact ⟨rfl, fun _ => rfl⟩
  | _ =>
    simp only [onCode]
    first
    | exact ⟨rfl, fun h => by cases h⟩
    | (split_ifs <;> exact ⟨rfl, fun h => by cases h⟩)

theorem Task.onRecord_speaks {config : Config} {row : Option (Row Content)} :
    (task.onRecord settings config row).starts = false ∧
      ((task.onRecord settings config row).speaks = true → task.speaks = true) := by
  cases task with
  | reading =>
    refine ⟨?_, fun _ => rfl⟩
    simp only [onRecord]
    repeat' split
    all_goals rfl
  | _ => exact ⟨rfl, fun h => by cases h⟩

theorem Task.onAttempts_speaks {attempts : ℤ} :
    (task.onAttempts attempts).starts = false ∧
      ((task.onAttempts attempts).speaks = true → task.speaks = true) := by
  cases task with
  | counting answer maxChars => exact ⟨rfl, fun _ => rfl⟩
  | _ => exact ⟨rfl, fun h => by cases h⟩

theorem Task.onEntries_speaks {sent : List SentChunk} :
    (task.onEntries settings sent).starts = false ∧
      ((task.onEntries settings sent).speaks = true → task.speaks = true) := by
  cases task with
  | resuming answer maxChars attempts =>
    refine ⟨?_, fun _ => rfl⟩
    simp only [onEntries]
    repeat' split
    all_goals rfl
  | _ => exact ⟨rfl, fun h => by cases h⟩

theorem Task.onNotified_speaks {notified : Notified} :
    (task.onNotified notified).starts = false ∧
      ((task.onNotified notified).speaks = true → task.speaks = true) := by
  cases task with
  | notifying attempts outboundIds chunk rest => cases notified <;> exact ⟨rfl, fun _ => rfl⟩
  | _ => exact ⟨rfl, fun h => by cases h⟩

theorem Task.onAppended_speaks : task.onAppended.starts = false ∧
    (task.onAppended.speaks = true → task.speaks = true) := by
  cases task with
  | ledgering attempts outboundIds chunk ids rest => exact ⟨rfl, fun _ => rfl⟩
  | _ => exact ⟨rfl, fun h => by cases h⟩

theorem Task.onStatus_speaks {status : Option ℕ} : (task.onStatus status).starts = false ∧
    ((task.onStatus status).speaks = true → task.speaks = true) := by
  cases task <;> exact ⟨rfl, fun h => by cases h⟩

end speaks

namespace Overtaken

variable {token' : Token}

/-- A task goes on without a claim. -/
theorem goOn {task : Task} (h : Overtaken token s) (hwinner : s'.winner = s.winner)
    (htasks : s'.tasks = Function.update s.tasks token' task)
    (hspeaks : token' = token →
      task.starts = false ∧ (task.speaks = true → (s.tasks token').speaks = true)) :
    Overtaken token s' := by
  unfold Overtaken
  rw [htasks, hwinner, Function.update_apply]
  split_ifs with heq
  · obtain ⟨hstarts, hspeaks⟩ := hspeaks heq.symm
    exact ⟨hstarts, fun htask => h.2 (heq ▸ hspeaks htask)⟩
  · exact h

theorem perform {input : Input} {cmd : Cmd} (h : Overtaken token s) (hinv : ChannelInv s)
    (hok : Fenced s (.run token' now input)) (hcmd : (s.tasks token').cmd settings = some cmd) :
    Overtaken token (s.perform settings token' now input cmd) := by
  have hstarts : token' = token → (s.tasks token').starts = false := fun heq => heq ▸ h.1
  cases cmd with
  | claimDelivery leaseSeconds =>
    by_cases hcode : (claimDelivery now token' leaseSeconds s.record).2 = 1
    · by_cases heq : token' = token
      · subst heq
        obtain ⟨-, row, hrow, hstatus, -⟩ := claimDelivery_eq_one hcode
        refine ⟨?_, fun hspeaks => ?_⟩
        · show (Function.update s.tasks token' _ token').starts = false
          rw [Function.update_self]
          exact (Task.onCode_speaks h.1).1
        · -- the claim is won by a worker that the record's claim named already
          change (Function.update s.tasks token' _ token').speaks = true at hspeaks
          rw [Function.update_self] at hspeaks
          have hbefore := (Task.onCode_speaks h.1).2 hspeaks
          refine absurd ?_ (h.2 hbefore)
          cases htask : s.tasks token' with
          | sending attempts outboundIds chunks =>
            cases chunks with
            | nil =>
              rw [htask] at hcmd
              cases hcmd
            | cons chunk rest =>
              unfold Fenced at hok
              simp only [htask] at hok
              obtain ⟨lease, hlease, rfl⟩ := Option.map_eq_some_iff.mp (hok row hrow hstatus)
              exact (hinv.owner row lease hrow hlease).2
          | posted | claiming | waitClaiming =>
            rw [htask] at hbefore
            cases hbefore
          | _ =>
            rw [htask] at hcmd
            cases hcmd
      · refine ⟨?_, fun _ => ?_⟩
        · show (Function.update s.tasks token' _ token).starts = false
          rw [Function.update_of_ne (Ne.symm heq)]
          exact h.1
        · show (if _ then some token' else s.winner) ≠ some token
          rw [if_pos hcode]
          exact fun hsame => heq (Option.some.inj hsame)
    · exact h.goOn (if_neg hcode) rfl fun heq => Task.onCode_speaks (hstarts heq)
  | getRecord => exact h.goOn rfl rfl fun _ => Task.onRecord_speaks
  | bumpAttempt => exact h.goOn rfl rfl fun _ => Task.onAttempts_speaks
  | markProvisional outboundIds attempts =>
    exact h.goOn rfl rfl fun heq => Task.onCode_speaks (hstarts heq)
  | markDelivered outboundIds attempts =>
    exact h.goOn rfl rfl fun heq => Task.onCode_speaks (hstarts heq)
  | markFailed attempts => exact h.goOn rfl rfl fun heq => Task.onCode_speaks (hstarts heq)
  | sentChunks => exact h.goOn rfl rfl fun _ => Task.onEntries_speaks
  | append entry => exact h.goOn rfl rfl fun _ => Task.onAppended_speaks
  | clear => exact h.goOn rfl rfl fun _ => ⟨rfl, fun hspeaks => by cases hspeaks⟩
  | notify message => exact h.goOn rfl rfl fun _ => Task.onNotified_speaks
  | post => exact h.goOn rfl rfl fun _ => Task.onStatus_speaks

theorem step {a : Label} (h : Overtaken token s) (hinv : ChannelInv s) (hok : Fenced s a)
    (hstep : s.next settings a = some s') : Overtaken token s' := by
  cases a with
  | run token' now input =>
    simp only [World.next, Option.map_eq_some_iff] at hstep
    obtain ⟨cmd, hcmd, rfl⟩ := hstep
    exact h.perform hinv hok hcmd
  | deliver token' | waitDeliver token' =>
    simp only [World.next, Option.ite_none_right_eq_some, Option.some.injEq] at hstep
    obtain ⟨hidle, rfl⟩ := hstep
    refine h.goOn rfl rfl fun heq => ?_
    have hstarts := h.1
    rw [← heq, hidle] at hstarts
    cases hstarts
  | crash token' =>
    obtain rfl := Option.some.inj hstep
    exact h.goOn rfl rfl fun _ => ⟨rfl, fun hspeaks => by cases hspeaks⟩
  | create data status intakeToken now =>
    simp only [World.next] at hstep
    split_ifs at hstep
    obtain rfl := Option.some.inj hstep
    exact h
  | tick now =>
    simp only [World.next, Option.ite_none_right_eq_some, Option.some.injEq] at hstep
    obtain ⟨-, rfl⟩ := hstep
    exact h
  | _ =>
    obtain rfl := Option.some.inj hstep
    exact h

end Overtaken

theorem World.eq_append_of_ledger {input : Input} {cmd : Cmd} {entry : SentChunk}
    (h : (s.perform settings token now input cmd).ledger = s.ledger ++ [entry]) :
    cmd = .append entry := by
  have hgrows : s.ledger ≠ s.ledger ++ [entry] := by simp
  cases cmd with
  | append entry' => simpa [World.perform] using h
  | clear => exact absurd h (by simp [World.perform])
  | _ => exact absurd h hgrows

/-- The record becomes provisional by the write of a worker that is at the end of its chunks. -/
theorem ChannelInv.provisional {a : Label} {row row' : Row Content} (h : ChannelInv s)
    (hstep : s.next settings a = some s') (hrow : s.record.row? = some row)
    (hne : row.deliveryStatus ≠ .provisional) (hrow' : s'.record.row? = some row')
    (hstatus' : row'.deliveryStatus = .provisional) :
    s'.ledger = s.ledger ∧ row'.data = row.data ∧ row.deliveryStatus = .pendingDelivery ∧
      ∃ token outboundIds attempts, s.tasks token = .sending attempts outboundIds [] := by
  have hkept : ∀ {status}, Kept status s.record s'.record → status ≠ .provisional → False := by
    intro status hkept hother
    obtain ⟨row₀, hrow₀, -, ⟨hsame, -⟩ | ⟨-, hsame⟩⟩ := hkept row' hrow'
    · obtain rfl := Option.some.inj (hrow.symm.trans hrow₀)
      exact hne (hsame ▸ hstatus')
    · exact hother (hsame ▸ hstatus')
  cases a with
  | create data status intakeToken now =>
    simp only [World.next] at hstep
    split_ifs at hstep with hcreated
    rw [(h.fresh (by simpa using hcreated)).1] at hrow
    cases hrow
  | completeTurn data now =>
    obtain rfl := Option.some.inj hstep
    by_cases hcode : (completeTurn settings.toConversationsSettings data now s.record).2 = 1
    · obtain ⟨-, row₁, -, -, hrow₁, hstatus₁, -⟩ := completeTurn_eq_one hcode
      obtain rfl := Option.some.inj (hrow₁.symm.trans hrow')
      rw [hstatus₁] at hstatus'
      cases hstatus'
    · exact (hkept (.of_eq .failed (completeTurn_ne_one hcode)) (by decide)).elim
  | claimIntake now token leaseSeconds =>
    obtain rfl := Option.some.inj hstep
    exact (hkept (kept_claimIntake .failed) (by decide)).elim
  | deleteRecord =>
    obtain rfl := Option.some.inj hstep
    cases hrow'
  | receipt receipt now =>
    obtain rfl := Option.some.inj hstep
    exact (hkept kept_ingestReceipt (by cases receipt <;> decide)).elim
  | expire =>
    obtain rfl := Option.some.inj hstep
    exact (hkept (kept_expire .failed) (by decide)).elim
  | run token now input =>
    simp only [World.next, Option.map_eq_some_iff] at hstep
    obtain ⟨cmd, hcmd, rfl⟩ := hstep
    cases cmd with
    | claimDelivery leaseSeconds =>
      by_cases hcode : (claimDelivery now token leaseSeconds s.record).2 = 1
      · obtain ⟨-, row₁, hrow₁, hstatus₁, hrow₁'⟩ := claimDelivery_eq_one hcode
        obtain rfl := Option.some.inj (hrow₁'.symm.trans hrow')
        rw [hstatus₁] at hstatus'
        cases hstatus'
      · exact (hkept (.of_eq .failed (claimDelivery_ne_one hcode)) (by decide)).elim
    | markProvisional outboundIds attempts =>
      have htask := Task.eq_of_markProvisional hcmd
      have hpast := (h.claimed token (by rw [htask]; rfl)).2 row hrow
      obtain ⟨row₀, hrow₀, hdata, -⟩ := kept_markProvisional row' hrow'
      obtain rfl := Option.some.inj (hrow.symm.trans hrow₀)
      refine ⟨rfl, hdata, ?_, token, outboundIds, attempts, htask⟩
      have hopen := status_before_markProvisional hrow hne hrow' hstatus'
      revert hpast hne hopen
      cases row.deliveryStatus <;> simp [DeliveryStatus.isTerminal]
    | markDelivered outboundIds attempts =>
      exact (hkept kept_markDelivered (by decide)).elim
    | markFailed attempts => exact (hkept kept_markFailed (by decide)).elim
    | bumpAttempt => exact (hkept (kept_bumpAttempt .failed) (by decide)).elim
    | _ => exact (hkept (.refl .failed _) (by decide)).elim
  | tick now =>
    simp only [World.next, Option.ite_none_right_eq_some, Option.some.injEq] at hstep
    obtain ⟨-, rfl⟩ := hstep
    exact (hkept (.refl .failed _) (by decide)).elim
  | deliver token | waitDeliver token =>
    simp only [World.next, Option.ite_none_right_eq_some, Option.some.injEq] at hstep
    obtain ⟨-, rfl⟩ := hstep
    exact (hkept (.refl .failed _) (by decide)).elim
  | _ =>
    obtain rfl := Option.some.inj hstep
    exact (hkept (.refl .failed _) (by decide)).elim

/-- Under the fence a resume neither skips nor repeats what is ledgered, whatever caps the
attempts find and wherever the workers die, time out or are taken over. -/
theorem resumes_of_fenced (h : (fencedDelivery settings).Reachable s) : Resumes settings s := by
  have hkeeps : ∀ s a s', ChannelInv s → (fencedDelivery settings).step s a s' → ChannelInv s' :=
    fun s a s' hinv hstep => hinv.step hstep.1 hstep.2
  have hinv : ChannelInv s := by
    refine h.invariant ?_ hkeeps
    rintro s rfl
    exact .start
  refine ⟨?_, hinv.ledger, ?_⟩
  · intro token s' s'' now input entry hclaimed hwinner hrun hstep hledger
    have hover : Overtaken token s := ⟨Task.starts_of_hasClaimed hclaimed, fun _ => hwinner⟩
    obtain ⟨-, hover'⟩ := hrun.invariant (p := fun s => ChannelInv s ∧ Overtaken token s)
      (fun s a s' hs hstep => ⟨hkeeps s a s' hs.1 hstep, hs.2.step hs.1 hstep.1 hstep.2⟩)
      ⟨hinv, hover⟩
    have hinv' := hrun.invariant hkeeps hinv
    obtain ⟨hok, hnext⟩ := hstep
    change s'.next settings _ = some s'' at hnext
    simp only [World.next, Option.map_eq_some_iff] at hnext
    obtain ⟨cmd, hcmd, rfl⟩ := hnext
    obtain rfl := World.eq_append_of_ledger hledger
    obtain ⟨attempts, outboundIds, chunk, ids, rest, htask, -⟩ := Task.eq_of_append hcmd
    unfold Fenced at hok
    simp only [htask] at hok
    obtain ⟨row, hrow, hclaim⟩ := hok
    obtain ⟨lease, hlease, rfl⟩ := Option.map_eq_some_iff.mp hclaim
    exact hover'.2 (by rw [htask]; rfl) (hinv'.owner row lease hrow hlease).2
  · intro a s' row row' answer hstep hrow hne hrow' hstatus' hanswer
    obtain ⟨hledger, hdata, hpending, token, outboundIds, attempts, htask⟩ :=
      hinv.provisional hstep.2 hrow hne hrow' hstatus'
    have hok := hinv.tasks token
    rw [htask] at hok
    rw [hledger]
    exact hok.1 rfl row answer ⟨hrow, hpending, hdata ▸ hanswer⟩

/-- The steps that `Fenced` admits while the ledger does not run out. -/
def fencedNow (s : World) : Label → Bool
  | .run token _ _ =>
    match s.tasks token with
    | .sending _ _ (_ :: _) => s.record.row?.all fun row =>
      row.deliveryStatus != .pendingDelivery || row.claim.map Lease.token == some token
    | .ledgering _ _ _ _ _ => s.record.row?.any fun row => row.claim.map Lease.token == some token
    | _ => true
  | .expireLedger => false
  | _ => true

theorem fenced_of_fencedNow {s : World} {a : Label} (h : fencedNow s a = true) : Fenced s a := by
  cases a with
  | run token now input =>
    simp only [fencedNow] at h
    simp only [Fenced]
    cases htask : s.tasks token with
    | sending attempts outboundIds chunks =>
      cases chunks with
      | nil => trivial
      | cons chunk rest =>
        rw [htask] at h
        intro row hrow hstatus
        simpa [hrow, hstatus] using h
    | ledgering attempts outboundIds chunk ids rest =>
      simpa [htask, Option.any_eq_true] using h
    | _ => trivial
  | expireLedger => cases h
  | _ => trivial

/-- The cap of the channel is three characters. -/
def narrow : Input := { smooth with config := ⟨some 3, true, true⟩ }

/-- Worker 1 dies after the first chunk; worker 2, under another cap, sends the rest. -/
theorem resumes_greeting : ∃ s, (fencedDelivery defaultDelivery).Reachable s ∧
    s.sent = ["hel".toList, "lo".toList] ∧
    s.record.row?.map Row.deliveryStatus = some .provisional ∧ Resumes defaultDelivery s := by
  obtain ⟨s, hs, hp⟩ := System.Reachable.of_foldlM (S := fencedDelivery defaultDelivery)
    (f := System.guarded (World.next defaultDelivery) fencedNow) (s := .start)
    (p := fun s => s.sent == ["hel".toList, "lo".toList] &&
      s.record.row?.map Row.deliveryStatus == some .provisional)
    (l := greetingCompleted ++ .deliver 1 :: List.replicate 7 (.run 1 2 narrow) ++
      .crash 1 :: .deliver 2 :: List.replicate 8 (.run 2 201 smooth))
    (fun s a s' h => ⟨fenced_of_fencedNow (System.step_of_guarded h).1,
      (System.step_of_guarded h).2⟩) rfl (by decide +kernel)
  simp only [Bool.and_eq_true, beq_iff_eq] at hp
  exact ⟨s, hs, hp.1, hp.2, resumes_of_fenced hs⟩

/-- Worker 1 is delayed once its chunk is accepted; worker 2 takes its lapsed lease over, sends
the chunk again and ledgers it; then worker 1 ledgers it too. -/
theorem late_append : ∃ s s' row, (delivery defaultDelivery).Reachable s ∧
    (s.tasks 1).hasClaimed = true ∧ s.winner = some 2 ∧
    s.next defaultDelivery (.run 1 300 smooth) = some s' ∧
    s'.ledger = s.ledger ++ [⟨5, ["wamid.1"]⟩] ∧ s'.record.row? = some row ∧
    row.data.answer = some "hello".toList ∧ charsSent s'.ledger = 10 := by
  obtain ⟨s, hs, hp⟩ := System.Reachable.of_foldlM (S := delivery defaultDelivery)
    (f := World.next defaultDelivery) (s := .start)
    (p := fun s => (s.next defaultDelivery (.run 1 300 smooth)).any fun s' =>
      (s.tasks 1).hasClaimed && s.winner == some 2 &&
        s'.ledger == s.ledger ++ [⟨5, ["wamid.1"]⟩] &&
        s'.record.row?.any (fun row => row.data.answer == some "hello".toList) &&
        charsSent s'.ledger == 10)
    (l := greetingCompleted ++ .deliver 1 :: List.replicate 6 (.run 1 2 smooth) ++
      .deliver 2 :: List.replicate 7 (.run 2 201 smooth))
    (fun s a s' h => h) rfl (by decide +kernel)
  simp only [Option.any_eq_true, Bool.and_eq_true, beq_iff_eq] at hp
  obtain ⟨s', hnext, ⟨⟨⟨hclaimed, hwinner⟩, hledger⟩, row, hrow, hanswer⟩, hchars⟩ := hp
  exact ⟨s, s', row, hs, hclaimed, hwinner, hnext, hledger, hrow, hanswer, hchars⟩

end TaiSkeleton.Conversations
