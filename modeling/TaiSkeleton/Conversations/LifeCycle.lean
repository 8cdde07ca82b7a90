import TaiSkeleton.Conversations.Delivery

/-!
# The life cycle of a record

A status only moves on. What a step does to the row is one of `RowStep`: each script is one
lemma, and the scripts that write a delivery state need that the record has left intake, which
the claim that every task takes first sees to (`Inv`). `mark_provisional` also admits a record
that is provisional already: a worker whose lease was taken over can still rewrite its outbound
ids and its grace deadline.
-/

namespace TaiSkeleton.Conversations

open Lib

variable {δ : Type}

/-- The moves of a status. -/
inductive Moves : DeliveryStatus → DeliveryStatus → Prop where
  | completed : Moves .accepted .pendingDelivery
  | sent : Moves .pendingDelivery .provisional
  | delivered : Moves .pendingDelivery .delivered
  | failed : Moves .pendingDelivery .failed
  | confirmed : Moves .provisional .delivered
  | bounced : Moves .provisional .failed

theorem Moves.ne_accepted {status status' : DeliveryStatus} (h : Moves status status') :
    status' ≠ .accepted := by
  cases h <;> decide

/-- What a step does to the row of a record: its status stays, with its outbound ids and its
grace deadline, or moves on, or the row is removed. -/
inductive RowStep : Option (Row δ) → Option (Row δ) → Prop where
  | same (row : Option (Row δ)) : RowStep row row
  | kept {row row' : Row δ} (status : row'.deliveryStatus = row.deliveryStatus)
      (ids : row'.outboundIds = row.outboundIds) (grace : row'.graceDeadline = row.graceDeadline) :
      RowStep (some row) (some row')
  | moved {row row' : Row δ} (moves : Moves row.deliveryStatus row'.deliveryStatus) :
      RowStep (some row) (some row')
  | removed (row : Option (Row δ)) : RowStep row none

/-- The record has left intake. -/
def Past (r : Record δ) : Prop := ∀ row, r.row? = some row → row.deliveryStatus ≠ .accepted

theorem RowStep.of_eq {row row' : Option (Row δ)} (h : row = row') : RowStep row row' :=
  h ▸ .same row

theorem RowStep.past {r r' : Record δ} (h : RowStep r.row? r'.row?) (hpast : Past r) : Past r' := by
  intro row' hrow'
  rw [hrow'] at h
  cases hr : r.row? with
  | none =>
    rw [hr] at h
    cases h
  | some row =>
    rw [hr] at h
    have hne := hpast row hr
    cases h with
    | same => exact hne
    | kept status ids grace => rwa [status]
    | moved moves => exact moves.ne_accepted

/-! ## The scripts -/

section scripts

variable {settings : ConversationsSettings} {r : Record δ} {now : Time} {token : Token}

theorem rowStep_completeTurn {data : δ} :
    RowStep r.row? (completeTurn settings data now r).1.row? := by
  unfold completeTurn
  cases hrow : r.row? with
  | none => exact .of_eq hrow.symm
  | some row =>
    dsimp only
    split_ifs with hstatus
    · exact .of_eq hrow.symm
    · refine .moved ?_
      rw [not_not.mp hstatus]
      exact .completed

theorem rowStep_claimIntake {leaseSeconds : Time} :
    RowStep r.row? (claimIntake now token leaseSeconds r).1.row? := by
  unfold claimIntake
  cases hrow : r.row? with
  | none => exact .of_eq hrow.symm
  | some row =>
    dsimp only
    split_ifs
    · exact .of_eq hrow.symm
    · exact .of_eq hrow.symm
    · exact .kept rfl rfl rfl

theorem rowStep_claimDelivery {leaseSeconds : Time} :
    RowStep r.row? (claimDelivery now token leaseSeconds r).1.row? := by
  unfold claimDelivery
  cases hrow : r.row? with
  | none => exact .of_eq hrow.symm
  | some row =>
    dsimp only
    split_ifs
    · exact .of_eq hrow.symm
    · exact .of_eq hrow.symm
    · exact .of_eq hrow.symm
    · exact .kept rfl rfl rfl

theorem rowStep_bumpAttempt : RowStep r.row? (bumpAttempt r).1.row? := by
  unfold bumpAttempt
  cases hkey : r.key with
  | none => exact .removed _
  | some stored =>
    cases stored with
    | row row =>
      have hrow : r.row? = some row := by simp [Record.row?, hkey]
      rw [hrow]
      exact .kept rfl rfl rfl
    | attemptsOnly attempts => exact .removed _

theorem rowStep_markProvisional {outboundIds : List String} {attempts : ℤ}
    (h : ∀ row, r.row? = some row → row.deliveryStatus ≠ .accepted ∧
      row.deliveryStatus ≠ .provisional) :
    RowStep r.row? (markProvisional settings outboundIds attempts now token r).1.row? := by
  unfold markProvisional
  cases hrow : r.row? with
  | none => exact .of_eq hrow.symm
  | some row =>
    dsimp only
    split_ifs with hterminal
    · exact .of_eq hrow.symm
    · exact .of_eq hrow.symm
    · obtain ⟨hintake, hprovisional⟩ := h row hrow
      refine .moved ?_
      revert hterminal hintake hprovisional
      cases row.deliveryStatus <;> simp [DeliveryStatus.isTerminal, Moves.sent]

theorem rowStep_markDelivered {outboundIds : List String} {attempts : ℤ} (h : Past r) :
    RowStep r.row? (markDelivered settings outboundIds attempts now token r).1.row? := by
  unfold markDelivered
  cases hrow : r.row? with
  | none => exact .of_eq hrow.symm
  | some row =>
    dsimp only
    split_ifs with hrefused hdelivered
    · exact .of_eq hrow.symm
    · exact .of_eq hrow.symm
    · exact .of_eq hrow.symm
    · have hintake := h row hrow
      refine .moved ?_
      revert hrefused hdelivered hintake
      cases row.deliveryStatus <;> simp [Moves.delivered, Moves.confirmed]

theorem rowStep_markFailed {attempts : ℤ} (h : Past r) :
    RowStep r.row? (markFailed settings attempts now token r).1.row? := by
  unfold markFailed
  cases hrow : r.row? with
  | none => exact .of_eq hrow.symm
  | some row =>
    dsimp only
    split_ifs with hsent hfailed
    · exact .of_eq hrow.symm
    · exact .of_eq hrow.symm
    · exact .of_eq hrow.symm
    · have hintake := h row hrow
      refine .moved ?_
      revert hsent hfailed hintake
      cases row.deliveryStatus <;> simp [Moves.failed]

theorem rowStep_ingestReceipt {receipt : DeliveryReceipt} :
    RowStep r.row? (ingestReceipt settings receipt now r).1.row? := by
  unfold ingestReceipt
  cases hrow : r.row? with
  | none => exact .of_eq hrow.symm
  | some row =>
    dsimp only
    split_ifs with htarget hterminal hprovisional
    · exact .of_eq hrow.symm
    · exact .of_eq hrow.symm
    · exact .of_eq hrow.symm
    · refine .moved ?_
      rw [not_not.mp hprovisional]
      cases receipt
      · exact .confirmed
      · exact .bounced

theorem rowStep_expire : RowStep r.row? (expire r).row? := by
  unfold expire
  cases hrow : r.row? with
  | none => exact .of_eq hrow.symm
  | some row =>
    dsimp only
    split_ifs
    · exact .removed _
    · exact .of_eq hrow.symm

theorem claimDelivery_of_none {leaseSeconds : Time} (h : r.row? = none) :
    claimDelivery now token leaseSeconds r = (r, -1) := by
  simp [claimDelivery, h]

/-- A claim is won only on a record that is to be delivered. -/
theorem past_of_claimDelivery {leaseSeconds : Time}
    (h : (claimDelivery now token leaseSeconds r).2 = 1) :
    Past (claimDelivery now token leaseSeconds r).1 := by
  revert h
  unfold claimDelivery
  cases hrow : r.row? with
  | none => simp
  | some row =>
    dsimp only
    split_ifs with hintake hpending
    · simp
    · simp
    · simp
    · rintro - row' hrow'
      obtain rfl := Option.some.inj hrow'
      exact hintake

theorem past_of_completeTurn {data : δ} (h : (completeTurn settings data now r).2 = 1) :
    Past (completeTurn settings data now r).1 ∧ ¬ Past r := by
  revert h
  unfold completeTurn
  cases hrow : r.row? with
  | none => simp
  | some row =>
    dsimp only
    split_ifs with hstatus
    · simp
    · refine fun _ => ⟨?_, fun hpast => hpast row hrow (not_not.mp hstatus)⟩
      intro row' hrow'
      obtain rfl := Option.some.inj hrow'
      simp

end scripts

/-! ## The tasks -/

/-- The task has won its first claim, and goes on. -/
def Task.hasClaimed : Task → Bool
  | .idle | .claiming | .waitClaiming | .ended | .answered => false
  | _ => true

section tasks

variable {settings : DeliverySettings} {task : Task}

/-- Only a won claim takes a task past its first claim. -/
theorem Task.hasClaimed_onCode {code : ℤ} (h : (task.onCode settings code).hasClaimed = true) :
    task.hasClaimed = true ∨ code = 1 := by
  cases task with
  | claiming =>
    refine .inr ?_
    by_contra hne
    simp [onCode, hne, hasClaimed] at h
  | waitClaiming =>
    refine .inr ?_
    by_contra hne
    simp [onCode, hne, hasClaimed] at h
  | idle => simp [onCode, hasClaimed] at h
  | answered => simp [onCode, hasClaimed] at h
  | ended => simp [onCode, hasClaimed] at h
  | _ => exact .inl rfl

/-- A command other than the first claim is that of a task past it. -/
theorem Task.hasClaimed_of_cmd {cmd : Cmd} (h : task.cmd settings = some cmd)
    (hne : ∀ leaseSeconds, cmd ≠ .claimDelivery leaseSeconds) : task.hasClaimed = true := by
  cases task with
  | idle => cases h
  | answered => cases h
  | ended => cases h
  | claiming => exact absurd (Option.some.inj h).symm (hne _)
  | waitClaiming => exact absurd (Option.some.inj h).symm (hne _)
  | _ => rfl

end tasks

/-! ## The world -/

/-- No provisional write finds the record provisional. -/
def FreshProvisional (settings : DeliverySettings) (s : World) : Label → Bool
  | .run token _ _ =>
    match (s.tasks token).cmd settings, s.record.row? with
    | some (.markProvisional _ _), some row => row.deliveryStatus != .provisional
    | _, _ => true
  | _ => true

/-- What keeps a status from being written before a turn has its outcome. -/
structure LifeInv (s : World) : Prop where
  fresh : s.created = false → s.record.row? = none ∧ s.completions = 0
  claimed : ∀ token, (s.tasks token).hasClaimed = true → s.created = true ∧ Past s.record
  once : s.completions ≤ 1
  completed : s.completions = 1 → Past s.record

namespace LifeInv

variable {settings : DeliverySettings} {s s' : World}

/-- A command leaves the record where its status may go, and no task gets past a claim it has
not won. -/
theorem perform {token : Token} {now : Time} {input : Input} {cmd : Cmd} (h : LifeInv s)
    (hcmd : (s.tasks token).cmd settings = some cmd)
    (hok : FreshProvisional settings s (.run token now input) = true) :
    RowStep s.record.row? (s.perform settings token now input cmd).record.row? := by
  have hpast : (∀ leaseSeconds, cmd ≠ .claimDelivery leaseSeconds) → Past s.record := fun hne =>
    (h.claimed token (Task.hasClaimed_of_cmd hcmd hne)).2
  cases cmd with
  | claimDelivery leaseSeconds => exact rowStep_claimDelivery
  | bumpAttempt => exact rowStep_bumpAttempt
  | markProvisional outboundIds attempts =>
    refine rowStep_markProvisional fun row hrow => ⟨hpast (by simp) row hrow, ?_⟩
    simpa [FreshProvisional, hcmd, hrow] using hok
  | markDelivered outboundIds attempts => exact rowStep_markDelivered (hpast (by simp))
  | markFailed attempts => exact rowStep_markFailed (hpast (by simp))
  | getRecord => exact .same _
  | sentChunks => exact .same _
  | append entry => exact .same _
  | clear => exact .same _
  | notify message => exact .same _
  | post => exact .same _

end LifeInv

section world

variable {settings : DeliverySettings} {s s' : World} {token : Token} {now : Time} {input : Input}
  {cmd : Cmd}

@[simp] theorem World.perform_created :
    (s.perform settings token now input cmd).created = s.created := by
  cases cmd <;> rfl

@[simp] theorem World.perform_completions :
    (s.perform settings token now input cmd).completions = s.completions := by
  cases cmd <;> rfl

/-- Only the task of a command goes on, and it is past its first claim only where it was, or has
won it. -/
theorem World.perform_tasks (hcmd : (s.tasks token).cmd settings = some cmd) :
    ∃ task, (s.perform settings token now input cmd).tasks = Function.update s.tasks token task ∧
      (task.hasClaimed = true → (s.tasks token).hasClaimed = true ∨
        Past (s.perform settings token now input cmd).record ∧ s.record.row? ≠ none) := by
  cases cmd with
  | claimDelivery leaseSeconds =>
    refine ⟨_, rfl, fun htask => ?_⟩
    rcases Task.hasClaimed_onCode htask with hclaimed | hcode
    · exact .inl hclaimed
    · refine .inr ⟨past_of_claimDelivery hcode, fun hnone => ?_⟩
      rw [claimDelivery_of_none hnone] at hcode
      exact absurd hcode (by simp)
  | getRecord => exact ⟨_, rfl, fun _ => .inl (Task.hasClaimed_of_cmd hcmd (by simp))⟩
  | bumpAttempt => exact ⟨_, rfl, fun _ => .inl (Task.hasClaimed_of_cmd hcmd (by simp))⟩
  | markProvisional outboundIds attempts =>
    exact ⟨_, rfl, fun _ => .inl (Task.hasClaimed_of_cmd hcmd (by simp))⟩
  | markDelivered outboundIds attempts =>
    exact ⟨_, rfl, fun _ => .inl (Task.hasClaimed_of_cmd hcmd (by simp))⟩
  | markFailed attempts => exact ⟨_, rfl, fun _ => .inl (Task.hasClaimed_of_cmd hcmd (by simp))⟩
  | sentChunks => exact ⟨_, rfl, fun _ => .inl (Task.hasClaimed_of_cmd hcmd (by simp))⟩
  | append entry => exact ⟨_, rfl, fun _ => .inl (Task.hasClaimed_of_cmd hcmd (by simp))⟩
  | clear => exact ⟨_, rfl, fun _ => .inl (Task.hasClaimed_of_cmd hcmd (by simp))⟩
  | notify message => exact ⟨_, rfl, fun _ => .inl (Task.hasClaimed_of_cmd hcmd (by simp))⟩
  | post => exact ⟨_, rfl, fun _ => .inl (Task.hasClaimed_of_cmd hcmd (by simp))⟩

end world

/-- A step either creates the record, or moves its row as it may. -/
def Advances (s : World) (a : Label) (s' : World) : Prop :=
  RowStep s.record.row? s'.record.row? ∨
    s.created = false ∧ s.record.row? = none ∧
      ∃ data status intakeToken now, a = .create data status intakeToken now

namespace LifeInv

variable {settings : DeliverySettings} {s s' : World} {a : Label}

theorem advances (h : LifeInv s) (hok : FreshProvisional settings s a = true)
    (hstep : s.next settings a = some s') : Advances s a s' := by
  cases a with
  | create data status intakeToken now =>
    have hcreated : s.created = false := by
      by_contra hne
      simp [World.next, hne] at hstep
    exact .inr ⟨hcreated, (h.fresh hcreated).1, data, status, intakeToken, now, rfl⟩
  | completeTurn data now =>
    obtain rfl := Option.some.inj hstep
    exact .inl rowStep_completeTurn
  | claimIntake now token leaseSeconds =>
    obtain rfl := Option.some.inj hstep
    exact .inl rowStep_claimIntake
  | deleteRecord =>
    obtain rfl := Option.some.inj hstep
    exact .inl (.removed _)
  | receipt receipt now =>
    obtain rfl := Option.some.inj hstep
    exact .inl rowStep_ingestReceipt
  | expire =>
    obtain rfl := Option.some.inj hstep
    exact .inl rowStep_expire
  | expireLedger =>
    obtain rfl := Option.some.inj hstep
    exact .inl (.same _)
  | tick now =>
    simp only [World.next, Option.ite_none_right_eq_some, Option.some.injEq] at hstep
    obtain ⟨-, rfl⟩ := hstep
    exact .inl (.same _)
  | deliver token =>
    simp only [World.next, Option.ite_none_right_eq_some, Option.some.injEq] at hstep
    obtain ⟨-, rfl⟩ := hstep
    exact .inl (.same _)
  | waitDeliver token =>
    simp only [World.next, Option.ite_none_right_eq_some, Option.some.injEq] at hstep
    obtain ⟨-, rfl⟩ := hstep
    exact .inl (.same _)
  | run token now input =>
    simp only [World.next, Option.map_eq_some_iff] at hstep
    obtain ⟨cmd, hcmd, rfl⟩ := hstep
    exact .inl (h.perform hcmd hok)
  | crash token =>
    obtain rfl := Option.some.inj hstep
    exact .inl (.same _)

/-- A task that goes on without a claim leaves the invariant. -/
theorem goOn {token : Token} {task : Task} (h : LifeInv s) (htask : task.hasClaimed = false) :
    LifeInv (s.goOn token task) := by
  refine ⟨h.fresh, fun token' hclaimed => ?_, h.once, h.completed⟩
  change (Function.update s.tasks token task token').hasClaimed = true at hclaimed
  by_cases heq : token' = token
  · rw [heq, Function.update_self, htask] at hclaimed
    cases hclaimed
  · rw [Function.update_of_ne heq] at hclaimed
    exact h.claimed token' hclaimed

/-- A write to the record alone that moves its row as it may leaves the invariant. -/
theorem record {r : Record Content} (h : LifeInv s) (hrow : RowStep s.record.row? r.row?) :
    LifeInv { s with record := r } := by
  refine ⟨fun hcreated => ⟨?_, (h.fresh hcreated).2⟩, fun token hclaimed => ?_, h.once,
    fun hcompleted => hrow.past (h.completed hcompleted)⟩
  · have hnone := (h.fresh hcreated).1
    rw [hnone] at hrow
    show r.row? = none
    cases hr : r.row? with
    | none => rfl
    | some row =>
      rw [hr] at hrow
      cases hrow
  · obtain ⟨hcreated, hpast⟩ := h.claimed token hclaimed
    exact ⟨hcreated, hrow.past hpast⟩

theorem step (h : LifeInv s) (hok : FreshProvisional settings s a = true)
    (hstep : s.next settings a = some s') : LifeInv s' := by
  have hadvances := h.advances hok hstep
  cases a with
  | create data status intakeToken now =>
    have hcreated : s.created = false := by
      by_contra hne
      simp [World.next, hne] at hstep
    simp only [World.next, hcreated, Bool.false_eq_true, if_false, Option.some.injEq] at hstep
    subst hstep
    obtain ⟨hrow, hcompletions⟩ := h.fresh hcreated
    refine ⟨fun hne => (by cases hne), fun token hclaimed => ?_, h.once, fun hcompleted => ?_⟩
    · rw [(h.claimed token hclaimed).1] at hcreated
      cases hcreated
    · change s.completions = 1 at hcompleted
      omega
  | completeTurn data now =>
    obtain rfl := Option.some.inj hstep
    have hrow : RowStep s.record.row?
        (Conversations.completeTurn settings.toConversationsSettings data now s.record).1.row? :=
      rowStep_completeTurn
    by_cases hcode :
        (Conversations.completeTurn settings.toConversationsSettings data now s.record).2 = 1
    · -- the record was at intake, so no turn has been completed
      obtain ⟨hpast', hintake⟩ := past_of_completeTurn hcode
      have hzero : s.completions ≠ 1 := fun hone => hintake (h.completed hone)
      have honce := h.once
      refine ⟨fun hcreated => ?_, fun token hclaimed => ?_, ?_, fun _ => hpast'⟩
      · refine absurd ?_ hintake
        intro row hrow
        rw [(h.fresh hcreated).1] at hrow
        cases hrow
      · exact ⟨(h.claimed token hclaimed).1, hpast'⟩
      · show (if _ = 1 then s.completions + 1 else s.completions) ≤ 1
        rw [if_pos hcode]
        omega
    · have hrecord := h.record hrow
      refine ⟨?_, hrecord.claimed, ?_, ?_⟩
      · rw [if_neg hcode]
        exact hrecord.fresh
      · rw [if_neg hcode]
        exact hrecord.once
      · rw [if_neg hcode]
        exact hrecord.completed
  | claimIntake now token leaseSeconds =>
    obtain rfl := Option.some.inj hstep
    exact h.record rowStep_claimIntake
  | deleteRecord =>
    obtain rfl := Option.some.inj hstep
    exact h.record (.removed _)
  | receipt receipt now =>
    obtain rfl := Option.some.inj hstep
    exact h.record rowStep_ingestReceipt
  | expire =>
    obtain rfl := Option.some.inj hstep
    exact h.record rowStep_expire
  | expireLedger =>
    obtain rfl := Option.some.inj hstep
    exact ⟨h.fresh, h.claimed, h.once, h.completed⟩
  | tick now =>
    simp only [World.next, Option.ite_none_right_eq_some, Option.some.injEq] at hstep
    obtain ⟨-, rfl⟩ := hstep
    exact ⟨h.fresh, h.claimed, h.once, h.completed⟩
  | deliver token =>
    simp only [World.next, Option.ite_none_right_eq_some, Option.some.injEq] at hstep
    obtain ⟨-, rfl⟩ := hstep
    exact h.goOn rfl
  | waitDeliver token =>
    simp only [World.next, Option.ite_none_right_eq_some, Option.some.injEq] at hstep
    obtain ⟨-, rfl⟩ := hstep
    exact h.goOn rfl
  | run token now input =>
    simp only [World.next, Option.map_eq_some_iff] at hstep
    obtain ⟨cmd, hcmd, rfl⟩ := hstep
    have hrow := h.perform hcmd hok
    obtain ⟨task, htasks, hclaimed⟩ := World.perform_tasks hcmd
    have hrecord := h.record hrow
    refine ⟨fun hcreated => ?_, fun token' htoken => ?_, ?_, fun hcompleted => ?_⟩
    · rw [World.perform_created] at hcreated
      rw [World.perform_completions]
      exact ⟨(hrecord.fresh hcreated).1, (h.fresh hcreated).2⟩
    · rw [htasks] at htoken
      rw [World.perform_created]
      by_cases heq : token' = token
      · rw [heq, Function.update_self] at htoken
        rcases hclaimed htoken with hold | ⟨hpast, hsome⟩
        · exact ⟨(h.claimed token hold).1, hrow.past (h.claimed token hold).2⟩
        · refine ⟨?_, hpast⟩
          by_contra hne
          exact hsome (h.fresh (by simpa using hne)).1
      · rw [Function.update_of_ne heq] at htoken
        exact ⟨(h.claimed token' htoken).1, hrow.past (h.claimed token' htoken).2⟩
    · rw [World.perform_completions]
      exact h.once
    · rw [World.perform_completions] at hcompleted
      exact hrow.past (h.completed hcompleted)
  | crash token =>
    obtain rfl := Option.some.inj hstep
    exact h.goOn rfl

theorem start : LifeInv .start where
  fresh _ := ⟨rfl, rfl⟩
  claimed token h := by cases h
  once := Nat.zero_le _
  completed h := by cases h

end LifeInv

/-! ## Every run -/

/-- The deliveries in which no provisional write finds the record provisional. -/
def freshDelivery (settings : DeliverySettings) : System World Label :=
  (delivery settings).when fun s a => FreshProvisional settings s a = true

/-- What holds of a state, and of every run on from it. -/
structure LifeCycle (settings : DeliverySettings) (s : World) : Prop where
  once : s.completions ≤ 1
  advances : ∀ a s', (freshDelivery settings).step s a s' → Advances s a s'
  absorbing : ∀ s' row row', (freshDelivery settings).Run s s' → s.record.row? = some row →
    row.deliveryStatus.isTerminal = true → s'.record.row? = some row' →
    row'.deliveryStatus = row.deliveryStatus

/-- The record has been created, and where its row is there it has a given status. -/
def Settled (status : DeliveryStatus) (s : World) : Prop :=
  s.created = true ∧ ∀ row, s.record.row? = some row → row.deliveryStatus = status

theorem Moves.not_terminal {status status' : DeliveryStatus} (h : Moves status status') :
    status.isTerminal = false := by
  cases h <;> rfl

theorem Settled.row {status : DeliveryStatus} {s s' : World} (h : Settled status s)
    (hterminal : status.isTerminal = true) (hrow : RowStep s.record.row? s'.record.row?) :
    ∀ row, s'.record.row? = some row → row.deliveryStatus = status := by
  intro row' hrow'
  rw [hrow'] at hrow
  cases hr : s.record.row? with
  | none =>
    rw [hr] at hrow
    cases hrow
  | some row =>
    rw [hr] at hrow
    have hstatus := h.2 row hr
    cases hrow with
    | same => exact hstatus
    | kept status' ids grace => rw [status', hstatus]
    | moved moves =>
      have hlive := moves.not_terminal
      rw [hstatus, hterminal] at hlive
      cases hlive

theorem World.next_created {settings : DeliverySettings} {s s' : World} {a : Label}
    (h : s.next settings a = some s') (hcreated : s.created = true) : s'.created = true := by
  cases a with
  | create data status intakeToken now => simp [World.next, hcreated] at h
  | run token now input =>
    simp only [World.next, Option.map_eq_some_iff] at h
    obtain ⟨cmd, -, rfl⟩ := h
    rw [World.perform_created, hcreated]
  | tick now =>
    simp only [World.next, Option.ite_none_right_eq_some, Option.some.injEq] at h
    obtain ⟨-, rfl⟩ := h
    exact hcreated
  | deliver token =>
    simp only [World.next, Option.ite_none_right_eq_some, Option.some.injEq] at h
    obtain ⟨-, rfl⟩ := h
    exact hcreated
  | waitDeliver token =>
    simp only [World.next, Option.ite_none_right_eq_some, Option.some.injEq] at h
    obtain ⟨-, rfl⟩ := h
    exact hcreated
  | _ =>
    obtain rfl := Option.some.inj h
    exact hcreated

/-- In every run whose provisional writes find the record not yet provisional, the status only
moves on, a terminal one stays until the row is removed, one turn is completed, and the outbound
ids and the grace deadline of a provisional record stay. -/
theorem lifeCycle_of_freshProvisional {settings : DeliverySettings} {s : World}
    (h : (freshDelivery settings).Reachable s) : LifeCycle settings s := by
  have hkeeps : ∀ s a s', LifeInv s → (freshDelivery settings).step s a s' → LifeInv s' :=
    fun s a s' hinv hstep => hinv.step hstep.1 hstep.2
  have hinv : LifeInv s := by
    refine h.invariant ?_ hkeeps
    rintro s rfl
    exact .start
  refine ⟨hinv.once, fun a s' hstep => hinv.advances hstep.1 hstep.2, ?_⟩
  intro s' row row' hrun hrow hterminal hrow'
  have hsettled : Settled row.deliveryStatus s := by
    refine ⟨?_, fun row'' hrow'' => ?_⟩
    · by_contra hne
      rw [(hinv.fresh (by simpa using hne)).1] at hrow
      cases hrow
    · rw [Option.some.inj (hrow''.symm.trans hrow)]
  have hstep : ∀ s a s', LifeInv s ∧ Settled row.deliveryStatus s →
      (freshDelivery settings).step s a s' → LifeInv s' ∧ Settled row.deliveryStatus s' := by
    rintro s a s' ⟨hinv, hsettled⟩ hstep
    refine ⟨hkeeps s a s' hinv hstep, World.next_created hstep.2 hsettled.1, ?_⟩
    rcases hinv.advances hstep.1 hstep.2 with hrow | ⟨hcreated, -⟩
    · exact hsettled.row hterminal hrow
    · rw [hsettled.1] at hcreated
      cases hcreated
  exact (hrun.invariant hstep ⟨hinv, hsettled⟩).2.2 row' hrow'

/-- An answer to a channel whose chunks are accepted, and a callback that answers 200. -/
def smooth : Input where
  config := ⟨some 4000, true, true⟩
  notified := .accepted ["wamid.1"]
  status := some 200

/-- The answer `hello` on a channel. -/
def greeting : Content := ⟨.channel, some "whatsapp", some "hello".toList, none⟩

/-- The turn of `greeting` has been completed. -/
def greetingCompleted : List Label :=
  [.create greeting .accepted (some 9) 0, .completeTurn greeting 1]

/-- A worker sends `greeting` and makes the record provisional. -/
theorem lifeCycle_greeting : ∃ s, (freshDelivery defaultDelivery).Reachable s ∧
    s.record.row?.map Row.deliveryStatus = some .provisional ∧ LifeCycle defaultDelivery s := by
  obtain ⟨s, hs, hrow⟩ := System.Reachable.of_foldlM (S := freshDelivery defaultDelivery)
    (f := System.guarded (World.next defaultDelivery) (FreshProvisional defaultDelivery))
    (s := .start) (p := fun s => s.record.row?.map Row.deliveryStatus == some .provisional)
    (l := greetingCompleted ++ .deliver 1 :: List.replicate 8 (.run 1 2 smooth))
    (fun s a s' h => System.step_of_guarded h) rfl (by decide +kernel)
  exact ⟨s, hs, by simpa using hrow, lifeCycle_of_freshProvisional hs⟩

/-- Worker 1 has sent the whole answer and is delayed; worker 2 takes its lapsed lease over and
makes the record provisional; then the write of worker 1 moves the grace deadline. -/
theorem late_provisional_write : ∃ s s' row row', (delivery defaultDelivery).Reachable s ∧
    s.next defaultDelivery (.run 1 300 smooth) = some s' ∧ s.winner = some 2 ∧
    s.record.row? = some row ∧ s'.record.row? = some row' ∧
    row.deliveryStatus = .provisional ∧ row'.deliveryStatus = .provisional ∧
    row.graceDeadline = some 3801 ∧ row'.graceDeadline = some 3900 := by
  obtain ⟨s, hs, hp⟩ := System.Reachable.of_foldlM (S := delivery defaultDelivery)
    (f := World.next defaultDelivery) (s := .start)
    (p := fun s => (s.next defaultDelivery (.run 1 300 smooth)).any fun s' =>
      s.winner == some 2 &&
        s.record.row?.map (fun row => (row.deliveryStatus, row.graceDeadline)) ==
          some (.provisional, some 3801) &&
        s'.record.row?.map (fun row => (row.deliveryStatus, row.graceDeadline)) ==
          some (.provisional, some 3900))
    (l := greetingCompleted ++ .deliver 1 :: List.replicate 7 (.run 1 2 smooth) ++
      .deliver 2 :: List.replicate 5 (.run 2 201 smooth))
    (fun s a s' h => h) rfl (by decide +kernel)
  simp only [Option.any_eq_true, Bool.and_eq_true, beq_iff_eq, Option.map_eq_some_iff,
    Prod.mk.injEq] at hp
  obtain ⟨s', hnext, ⟨hwinner, row, hrow, hstatus, hgrace⟩, row', hrow', hstatus', hgrace'⟩ := hp
  exact ⟨s, s', row, row', hs, hnext, hwinner, hrow, hrow', hstatus, hstatus', hgrace, hgrace'⟩

end TaiSkeleton.Conversations
