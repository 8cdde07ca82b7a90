import TaiSkeleton.Conversations.Inbound

/-!
# One turn for an inbound message

The claim of a pair is never released, so what it names is named for good: every id that a call
returns, the record whose turn is started and the record that becomes `pending_delivery` are the
one the marker names. The lease that a record is created under does not cover the way from there
to its turn: where it lapses first, a re-drive gives the record an outcome and the turn is started
all the same. Where no re-drive finds it lapsed (`LeaseCovers`), a turn is only started for a
record that is still at intake.
-/

namespace TaiSkeleton.Conversations.Inbound

open Lib

/-- The call has not created its record. -/
def Call.unborn : Call → Bool
  | .idle | .checking _ | .creating _ _ => true
  | _ => false

/-- The call goes on as the owner of the pair. -/
def Call.committed : Call → Bool
  | .shedding | .scheduled _ | .running _ | .answering _ _ | .resolving .failing => true
  | _ => false

/-- The turn of the call has been started, or will not be. -/
def Call.after : Call → Bool
  | .running _ | .answering _ _ | .resolving _ | .ended => true
  | _ => false

/-- The record is taken over: it is to be given an outcome or to be deleted. -/
def Arbiter.adopted : Arbiter → Bool
  | .arbitrating | .failing | .discarding => true
  | _ => false

/-- What holds whatever leases lapse. -/
structure PairInv (s : World) : Prop where
  unborn : ∀ id, (s.calls id).unborn = true → (s.records id).row? = none ∧
    ∀ n arbiter, s.passes n = some (id, arbiter) → arbiter.adopted = false
  returned : ∀ id ∈ s.returned, s.marker = some id
  discarding : ∀ id owner, s.calls id = .discarding owner → s.marker = some owner
  committed : ∀ id, (s.calls id).committed = true → s.marker = some id
  failing : ∀ n id, s.passes n = some (id, .failing) → s.marker = some id
  completed : s.completed = [] ∨ ∃ id, s.completed = [id] ∧ s.marker = some id ∧
    Past (s.records id) ∧ (s.calls id).unborn = false
  started : s.started = [] ∨ ∃ id, s.started = [id] ∧ s.marker = some id ∧
    (s.calls id).after = true

variable {settings : ConversationsSettings} {s s' : World} {id : MessageId} {now : Time}

/-! ## Commands -/

/-- What a command leaves of a record that it does not create: a row at intake was at intake. -/
def Onward (r r' : Record (Option Text)) : Prop :=
  (r.row? = none → r'.row? = none) ∧ (Past r → Past r')

theorem Onward.refl (r : Record (Option Text)) : Onward r r := ⟨id, id⟩

theorem onward_of_rowStep {r r' : Record (Option Text)} (h : RowStep r.row? r'.row?) :
    Onward r r' := by
  refine ⟨fun hnone => ?_, h.past⟩
  rw [hnone] at h
  cases hrow : r'.row? with
  | none => rfl
  | some row =>
    rw [hrow] at h
    cases h

theorem onward_deleteRecord {r : Record (Option Text)} : Onward r (deleteRecord r).1 :=
  ⟨fun _ => rfl, fun _ _ hrow => by cases hrow⟩

namespace World

variable {command : Command}

@[simp] theorem exec_calls : (s.exec settings id now command).1.calls = s.calls := by
  cases command <;> rfl

@[simp] theorem exec_passes : (s.exec settings id now command).1.passes = s.passes := by
  cases command <;> rfl

@[simp] theorem exec_returned : (s.exec settings id now command).1.returned = s.returned := by
  cases command <;> rfl

@[simp] theorem exec_started : (s.exec settings id now command).1.started = s.started := by
  cases command <;> rfl

/-- The marker is written once. -/
theorem exec_marker {owner : MessageId} (h : s.marker = some owner) :
    (s.exec settings id now command).1.marker = some owner := by
  cases command with
  | claimInbound => simp [exec, h]
  | _ => exact h

theorem exec_records_of_ne {id' : MessageId} (h : id' ≠ id) :
    (s.exec settings id now command).1.records id' = s.records id' := by
  cases command <;> first | rfl | exact Function.update_of_ne h _ _

theorem exec_onward (h : ∀ status intakeToken, command ≠ .createRecord status intakeToken)
    (id' : MessageId) :
    Onward (s.records id') ((s.exec settings id now command).1.records id') := by
  by_cases heq : id' = id
  · subst heq
    cases command with
    | createRecord status intakeToken => exact absurd rfl (h status intakeToken)
    | deleteRecord =>
      show Onward _ (Function.update s.records id' _ id')
      rw [Function.update_self]
      exact onward_deleteRecord
    | completeTurn answer =>
      show Onward _ (Function.update s.records id' _ id')
      rw [Function.update_self]
      exact onward_of_rowStep rowStep_completeTurn
    | claimIntake token =>
      show Onward _ (Function.update s.records id' _ id')
      rw [Function.update_self]
      exact onward_of_rowStep rowStep_claimIntake
    | getInboundOwner | claimInbound | getRecord => exact .refl _
  · rw [exec_records_of_ne heq]
    exact .refl _

/-- A command adds to the completed records only what it completes. -/
theorem exec_completed (settings : ConversationsSettings) (s : World) (id : MessageId) (now : Time)
    (command : Command) : (s.exec settings id now command).1.completed = s.completed ∨
    (∃ answer, command = .completeTurn answer) ∧
      (s.exec settings id now command).1.completed = id :: s.completed ∧
      Past ((s.exec settings id now command).1.records id) ∧ ¬ Past (s.records id) := by
  cases command with
  | completeTurn answer =>
    by_cases hcode : (Conversations.completeTurn settings (some answer) now (s.records id)).2 = 1
    · refine .inr ⟨⟨answer, rfl⟩, if_pos hcode, ?_⟩
      show Past (Function.update s.records id _ id) ∧ _
      rw [Function.update_self]
      exact past_of_completeTurn hcode
    · exact .inl (if_neg hcode)
  | _ => exact .inl rfl

end World

/-! ## The steps -/

theorem past_of_none {r : Record (Option Text)} (h : r.row? = none) : Past r := by
  intro row hrow
  rw [h] at hrow
  cases hrow

namespace PairInv

/-- A command carried out for a call or a pass. -/
theorem exec {command : Command} (h : PairInv s)
    (hcreate : ∀ status intakeToken, command ≠ .createRecord status intakeToken)
    (hcomplete : ∀ answer, command = .completeTurn answer → s.marker = some id) :
    PairInv (s.exec settings id now command).1 := by
  have honward : ∀ id', Onward (s.records id') ((s.exec settings id now command).1.records id') :=
    World.exec_onward hcreate
  refine ⟨fun id' hunborn => ?_, fun id' hreturned => ?_, fun id' owner hcall => ?_,
    fun id' hcommitted => ?_, fun n id' hpass => ?_, ?_, ?_⟩
  · rw [World.exec_calls] at hunborn
    obtain ⟨hnone, hpasses⟩ := h.unborn id' hunborn
    rw [World.exec_passes]
    exact ⟨(honward id').1 hnone, hpasses⟩
  · rw [World.exec_returned] at hreturned
    exact World.exec_marker (h.returned id' hreturned)
  · rw [World.exec_calls] at hcall
    exact World.exec_marker (h.discarding id' owner hcall)
  · rw [World.exec_calls] at hcommitted
    exact World.exec_marker (h.committed id' hcommitted)
  · rw [World.exec_passes] at hpass
    exact World.exec_marker (h.failing n id' hpass)
  · rw [World.exec_calls]
    obtain hsame | ⟨⟨answer, rfl⟩, hcons, hpast, hnot⟩ := World.exec_completed settings s id
      now command
    · rw [hsame]
      obtain hnil | ⟨id', hone, hmarker, hpast, hborn⟩ := h.completed
      · exact .inl hnil
      · exact .inr ⟨id', hone, World.exec_marker hmarker, (honward id').2 hpast, hborn⟩
    · have hmarker := hcomplete answer rfl
      have hborn : (s.calls id).unborn = false := by
        by_contra hunborn
        exact hnot (past_of_none (h.unborn id (by simpa using hunborn)).1)
      refine .inr ⟨id, ?_, World.exec_marker hmarker, hpast, hborn⟩
      -- what was completed before is this record, which is at intake
      obtain hnil | ⟨id', -, hmarker', hpast', -⟩ := h.completed
      · rw [hcons, hnil]
      · obtain rfl := Option.some.inj (hmarker.symm.trans hmarker')
        exact absurd hpast' hnot
  · rw [World.exec_started, World.exec_calls]
    obtain hnil | ⟨id', hone, hmarker, hafter⟩ := h.started
    · exact .inl hnil
    · exact .inr ⟨id', hone, World.exec_marker hmarker, hafter⟩

/-- A call goes on, and may return an id. -/
theorem setCall (call : Call) (ids : List MessageId) (h : PairInv s)
    (hunborn : call.unborn = true → (s.calls id).unborn = true)
    (hdiscarding : ∀ owner, call = .discarding owner → s.marker = some owner)
    (hcommitted : call.committed = true → s.marker = some id)
    (hafter : (s.calls id).after = true → call.after = true)
    (hids : ∀ id' ∈ ids, s.marker = some id') :
    PairInv { s.setCall id call with returned := ids ++ s.returned } := by
  refine ⟨fun id' hunborn' => ?_, fun id' hreturned => ?_, fun id' owner hcall => ?_,
    fun id' hcommitted' => ?_, h.failing, ?_, ?_⟩
  · change (Function.update s.calls id call id').unborn = true at hunborn'
    refine h.unborn id' ?_
    rw [Function.update_apply] at hunborn'
    split_ifs at hunborn' with heq
    · exact heq ▸ hunborn hunborn'
    · exact hunborn'
  · rcases List.mem_append.mp hreturned with hnew | hold
    · exact hids id' hnew
    · exact h.returned id' hold
  · change Function.update s.calls id call id' = .discarding owner at hcall
    rw [Function.update_apply] at hcall
    split_ifs at hcall with heq
    · exact hdiscarding owner hcall
    · exact h.discarding id' owner hcall
  · change (Function.update s.calls id call id').committed = true at hcommitted'
    rw [Function.update_apply] at hcommitted'
    split_ifs at hcommitted' with heq
    · exact heq ▸ hcommitted hcommitted'
    · exact h.committed id' hcommitted'
  · obtain hnil | ⟨id', hone, hmarker, hpast, hborn⟩ := h.completed
    · exact .inl hnil
    · refine .inr ⟨id', hone, hmarker, hpast, ?_⟩
      show (Function.update s.calls id call id').unborn = false
      rw [Function.update_apply]
      split_ifs with heq
      · by_contra hcall
        rw [heq, hunborn (by simpa using hcall)] at hborn
        cases hborn
      · exact hborn
  · obtain hnil | ⟨id', hone, hmarker, hstarted⟩ := h.started
    · exact .inl hnil
    · refine .inr ⟨id', hone, hmarker, ?_⟩
      show (Function.update s.calls id call id').after = true
      rw [Function.update_apply]
      split_ifs with heq
      · exact hafter (heq ▸ hstarted)
      · exact hstarted

/-- A pass goes on. -/
theorem setPass {n : ℕ} {arbiter : Arbiter} (h : PairInv s)
    (hadopted : arbiter.adopted = true → (s.calls id).unborn = false)
    (hfailing : arbiter = .failing → s.marker = some id) : PairInv (s.setPass n id arbiter) := by
  refine ⟨fun id' hunborn => ⟨(h.unborn id' hunborn).1, fun n' arbiter' hpass => ?_⟩, h.returned,
    h.discarding, h.committed, fun n' id' hpass => ?_, h.completed, h.started⟩
  · change Function.update s.passes n _ n' = _ at hpass
    rw [Function.update_apply] at hpass
    split_ifs at hpass with heq
    · obtain ⟨rfl, rfl⟩ := Prod.mk.inj (Option.some.inj hpass)
      change (s.calls id).unborn = true at hunborn
      by_contra hcall
      rw [hadopted (by simpa using hcall)] at hunborn
      cases hunborn
    · exact (h.unborn id' hunborn).2 n' arbiter' hpass
  · change Function.update s.passes n _ n' = _ at hpass
    rw [Function.update_apply] at hpass
    split_ifs at hpass with heq
    · obtain ⟨rfl, harb⟩ := Prod.mk.inj (Option.some.inj hpass)
      exact hfailing harb
    · exact h.failing n' id' hpass

/-- A record is created, or the attempt at it fails. -/
theorem created (record : Record (Option Text)) (call : Call) (h : PairInv s)
    (hunborn : (s.calls id).unborn = true) (hcall : call.unborn = false)
    (hcommitted : call.committed = false) (hdiscarding : ∀ owner, call ≠ .discarding owner) :
    PairInv ((s.setRecord id record).setCall id call) := by
  have hnot : ∀ id', (s.calls id').unborn = false → id' ≠ id := by
    rintro id' hborn rfl
    rw [hunborn] at hborn
    cases hborn
  refine ⟨fun id' hunborn' => ?_, h.returned, fun id' owner hcall' => ?_,
    fun id' hcommitted' => ?_, h.failing, ?_, ?_⟩
  · change (Function.update s.calls id call id').unborn = true at hunborn'
    have hne : id' ≠ id := by
      rintro rfl
      rw [Function.update_self, hcall] at hunborn'
      cases hunborn'
    rw [Function.update_of_ne hne] at hunborn'
    show (Function.update s.records id record id').row? = none ∧ _
    rw [Function.update_of_ne hne]
    exact h.unborn id' hunborn'
  · change Function.update s.calls id call id' = .discarding owner at hcall'
    rw [Function.update_apply] at hcall'
    split_ifs at hcall' with heq
    · exact absurd hcall' (hdiscarding owner)
    · exact h.discarding id' owner hcall'
  · change (Function.update s.calls id call id').committed = true at hcommitted'
    rw [Function.update_apply] at hcommitted'
    split_ifs at hcommitted' with heq
    · rw [hcommitted] at hcommitted'
      cases hcommitted'
    · exact h.committed id' hcommitted'
  · obtain hnil | ⟨id', hone, hmarker, hpast, hborn⟩ := h.completed
    · exact .inl hnil
    · have hne := hnot id' hborn
      refine .inr ⟨id', hone, hmarker, ?_, ?_⟩
      · show Past (Function.update s.records id record id')
        rwa [Function.update_of_ne hne]
      · show (Function.update s.calls id call id').unborn = false
        rwa [Function.update_of_ne hne]
  · obtain hnil | ⟨id', hone, hmarker, hafter⟩ := h.started
    · exact .inl hnil
    · refine .inr ⟨id', hone, hmarker, ?_⟩
      have hne : id' ≠ id := by
        rintro rfl
        revert hunborn hafter
        cases s.calls id' <;> simp [Call.unborn, Call.after]
      show (Function.update s.calls id call id').after = true
      rwa [Function.update_of_ne hne]

end PairInv

/-! ## What a call does -/

theorem Arbiter.marker_of_failing {arbiter : Arbiter} {command : Command}
    (hcommand : arbiter.command = some command)
    (h : arbiter.onReply id (s.exec settings id now command).2 = .failing) :
    (s.exec settings id now command).1.marker = some id := by
  cases arbiter with
  | reading =>
    simp only [onReply] at h
    split at h
    · cases h
    · split_ifs at h
  | adopting token =>
    simp only [onReply] at h
    split_ifs at h
  | arbitrating =>
    obtain rfl := Option.some.inj hcommand
    simp only [onReply] at h
    split_ifs at h with howner
    exact howner
  | _ => cases h

/-- Without a row there is nothing to adopt. -/
theorem Arbiter.not_adopted {arbiter : Arbiter} {command : Command}
    (hcommand : arbiter.command = some command) (hnone : (s.records id).row? = none)
    (hbefore : arbiter.adopted = false) :
    (arbiter.onReply id (s.exec settings id now command).2).adopted = false := by
  cases arbiter with
  | reading =>
    obtain rfl := Option.some.inj hcommand
    simp only [onReply, World.exec, hnone]
    rfl
  | adopting token =>
    obtain rfl := Option.some.inj hcommand
    simp only [onReply, World.exec, Conversations.claimIntake, hnone]
    rfl
  | done => rfl
  | _ => cases hbefore

namespace Call

variable {call : Call} {command : Command} {admission : Option AddressAdmission} {reply : Reply}

theorem onReply_unborn (h : (call.onReply id admission reply).unborn = true) :
    call.unborn = true := by
  cases call with
  | claiming admission' token =>
    simp only [onReply] at h
    repeat' split at h
    all_goals cases h
  | answering answer token =>
    simp only [onReply] at h
    split_ifs at h <;> cases h
  | idle | checking | creating => rfl
  | _ => cases h

theorem onReply_after (h : call.after = true) :
    (call.onReply id admission reply).after = true := by
  cases call with
  | answering answer token =>
    simp only [onReply]
    split_ifs <;> rfl
  | running | resolving | ended => rfl
  | _ => cases h

theorem interrupted_eq (call : Call) (cancelled : Bool) :
    call.interrupted cancelled = .ended ∨ call.interrupted cancelled = .resolving .reading := by
  cases call with
  | creating admission' token => cases admission' <;> first | exact .inl rfl | exact .inr rfl
  | claiming admission' token => cases admission' <;> first | exact .inl rfl | exact .inr rfl
  | scheduled | running | answering => cases cancelled <;> first | exact .inl rfl | exact .inr rfl
  | _ => exact .inl rfl

/-- What a call asks to have completed is the record that the pair is committed to. -/
theorem committed_of_completeTurn {answer : Text}
    (h : call.command = some (.completeTurn answer)) : call.committed = true := by
  cases call with
  | creating admission token => cases admission <;> cases h
  | resolving arbiter => cases arbiter <;> first | rfl | cases h
  | shedding | answering => rfl
  | _ => cases h

theorem eq_of_createRecord {status : DeliveryStatus} {intakeToken : Option Token}
    (h : call.command = some (.createRecord status intakeToken)) :
    ∃ admission token, call = .creating admission token := by
  cases call with
  | creating admission token => exact ⟨_, _, rfl⟩
  | resolving arbiter => cases arbiter <;> cases h
  | _ => cases h

/-- A call that discards its record has been told whose the pair is. -/
theorem marker_of_discarding {owner : MessageId} (hcommand : call.command = some command)
    (h : call.onReply id admission (s.exec settings id now command).2 = .discarding owner) :
    (s.exec settings id now command).1.marker = some owner := by
  cases call with
  | checking token =>
    simp only [onReply] at h
    split at h <;> cases h
  | claiming admission' token =>
    obtain rfl := Option.some.inj hcommand
    simp only [onReply, World.exec] at h ⊢
    split_ifs at h with hne
    · rw [discarding.inj h]
    · cases admission' <;> cases h
  | answering answer token =>
    simp only [onReply] at h
    split_ifs at h
  | _ => cases h

/-- A call that goes on as the owner of the pair has been told that it is. -/
theorem marker_of_committed (hcommand : call.command = some command)
    (h : (call.onReply id admission (s.exec settings id now command).2).committed = true) :
    (s.exec settings id now command).1.marker = some id := by
  cases call with
  | checking token =>
    simp only [onReply] at h
    split at h <;> cases h
  | claiming admission' token =>
    obtain rfl := Option.some.inj hcommand
    simp only [onReply, World.exec] at h ⊢
    split_ifs at h with hne
    · cases h
    · rw [not_not.mp hne]
  | answering answer token =>
    simp only [onReply] at h
    split_ifs at h <;> cases h
  | resolving arbiter =>
    refine Arbiter.marker_of_failing hcommand ?_
    revert h
    simp only [onReply]
    cases arbiter.onReply id (s.exec settings id now command).2 <;> simp [committed]
  | _ => cases h

/-- Whatever a call returns, the pair is committed to it. -/
theorem marker_of_returns {owner : MessageId} (h : PairInv s) (hcall : s.calls id = call)
    (hcommand : call.command = some command)
    (hreturns : owner ∈ (call.returns id (s.exec settings id now command).2).toList) :
    (s.exec settings id now command).1.marker = some owner := by
  rw [Option.mem_toList] at hreturns
  cases call with
  | checking token =>
    obtain rfl := Option.some.inj hcommand
    exact hreturns
  | claiming admission' token =>
    obtain rfl := Option.some.inj hcommand
    have hown : (s.exec settings id now .claimInbound).2.owner = some id ∧ id = owner := by
      cases admission' with
      | shedWithReply => cases hreturns
      | admitted | shedSilent => simpa [returns] using hreturns
    rw [← hown.2]
    exact hown.1
  | discarding owner' =>
    obtain rfl := Option.some.inj hreturns
    exact World.exec_marker (h.discarding id owner' hcall)
  | shedding =>
    simp only [returns] at hreturns
    split_ifs at hreturns
    obtain rfl := Option.some.inj hreturns
    exact World.exec_marker (h.committed id (by rw [hcall]; rfl))
  | _ => cases hreturns

end Call

namespace PairInv

theorem runCall {admission : Option AddressAdmission} {command : Command} (h : PairInv s)
    (hcommand : (s.calls id).command = some command) :
    PairInv (s.runCall settings id now admission command) := by
  by_cases hcreate : ∃ status intakeToken, command = .createRecord status intakeToken
  · obtain ⟨status, intakeToken, rfl⟩ := hcreate
    obtain ⟨admission', token, hcall⟩ := Call.eq_of_createRecord hcommand
    have hinv := h.created
      (createRecord settings none status [] 0 now intakeToken now (s.records id))
      (.claiming admission' token)
      (by rw [hcall]; rfl) rfl rfl (fun owner hne => by cases hne)
    unfold World.runCall
    rw [hcall]
    exact hinv
  · have hexec : PairInv (s.exec settings id now command).1 := by
      refine h.exec (fun status intakeToken heq => hcreate ⟨_, _, heq⟩) fun answer heq => ?_
      exact h.committed id (Call.committed_of_completeTurn (heq ▸ hcommand))
    have hinv := hexec.setCall
      ((s.calls id).onReply id admission (s.exec settings id now command).2)
      ((s.calls id).returns id (s.exec settings id now command).2).toList
      (by rw [World.exec_calls]; exact Call.onReply_unborn)
      (fun owner => Call.marker_of_discarding hcommand) (Call.marker_of_committed hcommand)
      (by rw [World.exec_calls]; exact Call.onReply_after)
      (fun owner => Call.marker_of_returns h rfl hcommand)
    rwa [World.exec_returned] at hinv

/-- The command of an await that raises. -/
theorem execIf {applied : Bool} {command : Option Command} (h : PairInv s)
    (hcreate : ∀ status intakeToken, command ≠ some (.createRecord status intakeToken))
    (hcomplete : ∀ answer, command = some (.completeTurn answer) → s.marker = some id) :
    PairInv (s.execIf settings applied id now command) := by
  cases command with
  | none => exact h
  | some command =>
    cases applied with
    | false => exact h
    | true =>
      exact h.exec (fun status intakeToken heq => hcreate status intakeToken (heq ▸ rfl))
        fun answer heq => hcomplete answer (heq ▸ rfl)

/-- A call is over but for the resolution of its record. -/
theorem finished {call : Call} (h : PairInv s)
    (hover : call = .ended ∨ call = .resolving .reading) :
    PairInv (s.setCall id call) := by
  refine h.setCall call [] ?_ ?_ ?_ ?_ (fun id' hids => by cases hids) <;>
    rcases hover with rfl | rfl
  · exact fun hne => by cases hne
  · exact fun hne => by cases hne
  · exact fun owner hne => by cases hne
  · exact fun owner hne => by cases hne
  · exact fun hne => by cases hne
  · exact fun hne => by cases hne
  · exact fun _ => rfl
  · exact fun _ => rfl

/-- An await of a call raises. -/
theorem interrupt {applied cancelled : Bool} (h : PairInv s) :
    PairInv ((s.execIf settings applied id now (s.calls id).command).setCall id
      ((s.calls id).interrupted cancelled)) := by
  have hover := Call.interrupted_eq (s.calls id) cancelled
  by_cases hcreate : ∃ status intakeToken,
      (s.calls id).command = some (.createRecord status intakeToken)
  · obtain ⟨status, intakeToken, hcommand⟩ := hcreate
    rw [hcommand]
    cases applied with
    | false => exact h.finished hover
    | true =>
      obtain ⟨admission', token, hcall⟩ := Call.eq_of_createRecord hcommand
      refine h.created _ _ (by rw [hcall]; rfl) ?_ ?_ ?_ <;> rcases hover with heq | heq <;>
        rw [heq]
      · rfl
      · rfl
      · rfl
      · rfl
      · exact fun owner hne => by cases hne
      · exact fun owner hne => by cases hne
  · refine (h.execIf (fun status intakeToken heq => hcreate ⟨_, _, heq⟩)
      fun answer heq => ?_).finished
      hover
    exact h.committed id (Call.committed_of_completeTurn heq)

/-- The command of a pass. -/
theorem execPass {n : ℕ} {arbiter : Arbiter} (settings : ConversationsSettings) (now : Time)
    (applied : Bool) (h : PairInv s)
    (hpass : s.passes n = some (id, arbiter)) :
    PairInv (s.execIf settings applied id now arbiter.command) := by
  refine h.execIf (fun status intakeToken heq => ?_) (fun answer heq => ?_)
  · cases arbiter <;> cases heq
  · cases arbiter with
    | failing => exact h.failing n id hpass
    | _ => cases heq

/-- The delivery machine moves a record on. -/
theorem delivered {record : Record (Option Text)} (h : PairInv s)
    (hany : (s.records id).row?.any (·.deliveryStatus ≠ .accepted) = true)
    (hall : record.row?.all (·.deliveryStatus ≠ .accepted) = true) :
    PairInv (s.setRecord id record) := by
  refine ⟨fun id' hunborn => ?_, h.returned, h.discarding, h.committed, h.failing, ?_, h.started⟩
  · obtain ⟨hnone, hpasses⟩ := h.unborn id' hunborn
    refine ⟨?_, hpasses⟩
    show (Function.update s.records id record id').row? = none
    have hne : id' ≠ id := by
      rintro rfl
      rw [hnone] at hany
      cases hany
    rwa [Function.update_of_ne hne]
  · obtain hnil | ⟨id', hone, hmarker, hpast, hborn⟩ := h.completed
    · exact .inl hnil
    · refine .inr ⟨id', hone, hmarker, ?_, hborn⟩
      show Past (Function.update s.records id record id')
      rw [Function.update_apply]
      split_ifs
      · intro row hrow
        simpa [hrow] using hall
      · exact hpast

theorem step {a : Label} (h : PairInv s) (hstep : s.next settings a = some s') : PairInv s' := by
  cases a with
  | accept id token =>
    simp only [World.next, Option.ite_none_right_eq_some, Option.some.injEq] at hstep
    obtain ⟨hidle, rfl⟩ := hstep
    exact h.setCall (.checking token) [] (fun _ => by rw [hidle]; rfl)
      (fun owner hne => by cases hne)
      (fun hne => by cases hne) (fun hne => by rw [hidle] at hne; cases hne)
      (fun id' hne => by cases hne)
  | call id now admission =>
    simp only [World.next, Option.map_eq_some_iff] at hstep
    obtain ⟨command, hcommand, rfl⟩ := hstep
    exact h.runCall hcommand
  | interrupt id now applied cancelled =>
    simp only [World.next, Option.ite_none_left_eq_some, Option.some.injEq] at hstep
    obtain ⟨-, rfl⟩ := hstep
    exact h.interrupt
  | crash id =>
    obtain rfl := Option.some.inj hstep
    exact h.finished (.inl rfl)
  | startTurn id =>
    simp only [World.next] at hstep
    split at hstep
    · rename_i token hcall
      obtain rfl := Option.some.inj hstep
      have hmarker := h.committed id (by rw [hcall]; rfl)
      have hinv := h.setCall (.running token) []
        (fun hne => by cases hne) (fun owner hne => by cases hne) (fun _ => hmarker) (fun _ => rfl)
        (fun id' hne => by cases hne)
      refine ⟨hinv.unborn, hinv.returned, hinv.discarding, hinv.committed, hinv.failing,
        hinv.completed, .inr ⟨id, ?_, hmarker, ?_⟩⟩
      · -- the turn that has been started before is of the same record, whose call is past it
        obtain hnil | ⟨id', -, hmarker', hafter⟩ := h.started
        · exact congrArg (id :: ·) hnil
        · obtain rfl := Option.some.inj (hmarker.symm.trans hmarker')
          rw [hcall] at hafter
          cases hafter
      · show (Function.update s.calls id _ id).after = true
        rw [Function.update_self]
        rfl
    · cases hstep
  | endTurn id answer =>
    simp only [World.next] at hstep
    split at hstep
    · rename_i token hcall
      obtain rfl := Option.some.inj hstep
      exact h.setCall (.answering answer token) [] (fun hne => by cases hne)
        (fun owner hne => by cases hne)
        (fun _ => h.committed id (by rw [hcall]; rfl)) (fun _ => rfl) (fun id' hne => by cases hne)
    · cases hstep
  | refresh id now =>
    simp only [World.next, Option.map_eq_some_iff] at hstep
    obtain ⟨token, -, rfl⟩ := hstep
    exact h.exec (fun status intakeToken heq => by cases heq) (fun answer heq => by cases heq)
  | redrive n id token =>
    simp only [World.next, Option.ite_none_right_eq_some, Option.some.injEq] at hstep
    obtain ⟨-, rfl⟩ := hstep
    exact h.setPass (fun hne => by cases hne) (fun hne => by cases hne)
  | pass n now =>
    simp only [World.next] at hstep
    split at hstep
    · rename_i id arbiter hpass
      simp only [Option.map_eq_some_iff] at hstep
      obtain ⟨command, hcommand, rfl⟩ := hstep
      have hexec := h.execPass settings now true hpass
      rw [hcommand] at hexec
      change PairInv (s.exec settings id now command).1 at hexec
      refine hexec.setPass (fun hadopted => ?_) (fun hfailing => ?_)
      · rw [World.exec_calls]
        by_contra hunborn
        obtain ⟨hnone, hno⟩ := h.unborn id (by simpa using hunborn)
        have hbefore := hno n arbiter hpass
        rw [Arbiter.not_adopted hcommand hnone hbefore] at hadopted
        cases hadopted
      · exact Arbiter.marker_of_failing hcommand hfailing
    · cases hstep
  | passFails n now applied =>
    simp only [World.next] at hstep
    split at hstep
    · rename_i id arbiter hpass
      obtain rfl := Option.some.inj hstep
      exact (h.execPass settings now applied hpass).setPass (fun hne => by cases hne)
        (fun hne => by cases hne)
    · cases hstep
  | deliver id record =>
    simp only [World.next, Option.ite_none_right_eq_some, Option.some.injEq] at hstep
    obtain ⟨⟨hany, hall⟩, rfl⟩ := hstep
    exact h.delivered hany hall

theorem start : PairInv .start where
  unborn id h := ⟨rfl, fun n arbiter hpass => by cases hpass⟩
  returned id h := by cases h
  discarding id owner h := by cases h
  committed id h := by cases h
  failing n id h := by cases h
  completed := .inl rfl
  started := .inl rfl

end PairInv

/-! ## The lease covers the way to the turn -/

/-- The call is on the way from its record to its turn. -/
def Call.onWay : Call → Bool
  | .claiming .admitted _ | .scheduled _ => true
  | _ => false

/-- The pair is another record's. -/
def Lost (s : World) (id : MessageId) : Prop := ∃ owner, s.marker = some owner ∧ owner ≠ id

/-- The intake lease of a record whose call is on the way to its turn has not lapsed when a
re-drive comes to adopt it, unless the pair is another record's. -/
def LeaseCovers (s : World) : Label → Prop
  | .pass n now =>
    match s.passes n with
    | some (id, .adopting token) => (s.calls id).onWay = true → Lost s id ∨
      ∀ row, (s.records id).row? = some row → foreignLease row.intakeClaim now token = true
    | _ => True
  | _ => True

/-- The runs in which no re-drive finds such a lease lapsed. -/
def coveredInbound (settings : ConversationsSettings) : System World Label :=
  (inbound settings).when LeaseCovers

/-- The record is at intake. -/
def AtIntake (r : Record (Option Text)) : Prop :=
  ∃ row, r.row? = some row ∧ row.deliveryStatus = .accepted

structure LiveInv (s : World) : Prop where
  passes : ∀ n id arbiter, s.passes n = some (id, arbiter) → arbiter ≠ .reading
  onWay : ∀ id, (s.calls id).onWay = true → Lost s id ∨ AtIntake (s.records id) ∧
    ∀ n arbiter, s.passes n = some (id, arbiter) → arbiter.adopted = false

/-- The command leaves the status of the record. -/
def Command.keepsStatus : Command → Bool
  | .getInboundOwner | .claimInbound | .getRecord | .claimIntake _ => true
  | _ => false

theorem atIntake_claimIntake {token : Token} {leaseSeconds : Time} {r : Record (Option Text)}
    (h : AtIntake r) : AtIntake (claimIntake now token leaseSeconds r).1 := by
  obtain ⟨row, hrow, hstatus⟩ := h
  unfold claimIntake
  rw [hrow]
  dsimp only
  split_ifs
  · exact ⟨row, hrow, hstatus⟩
  · exact ⟨row, hrow, hstatus⟩
  · exact ⟨_, rfl, hstatus⟩

theorem Lost.exec {command : Command} {id' : MessageId} (h : Lost s id) :
    Lost (s.exec settings id' now command).1 id := by
  obtain ⟨owner, hmarker, hne⟩ := h
  exact ⟨owner, World.exec_marker hmarker, hne⟩

theorem World.exec_atIntake {command : Command} (h : AtIntake (s.records id))
    (hkeeps : command.keepsStatus = true) :
    AtIntake ((s.exec settings id now command).1.records id) := by
  cases command with
  | claimIntake token =>
    show AtIntake (Function.update s.records id _ id)
    rw [Function.update_self]
    exact atIntake_claimIntake h
  | getInboundOwner | claimInbound | getRecord => exact h
  | _ => cases hkeeps

/-- What a call on its way asks for leaves the status of its record. -/
theorem Call.keepsStatus_of_onWay {call : Call} {command : Command}
    (hcommand : call.command = some command) (h : call.onWay = true) :
    command.keepsStatus = true := by
  cases call with
  | claiming admission token =>
    obtain rfl := Option.some.inj hcommand
    rfl
  | scheduled => cases hcommand
  | _ => cases h

theorem Call.onReply_onWay {call : Call} {admission : Option AddressAdmission} {reply : Reply}
    (hcreating : ∀ admission token, call ≠ .creating admission token)
    (h : (call.onReply id admission reply).onWay = true) : call.onWay = true := by
  cases call with
  | checking token =>
    simp only [onReply] at h
    split at h <;> cases h
  | creating admission' token => exact absurd rfl (hcreating _ _)
  | claiming admission' token =>
    simp only [onReply] at h
    split at h
    · cases h
    · split_ifs at h
      · cases h
      · cases admission' <;> first | rfl | cases h
  | answering answer token =>
    simp only [onReply] at h
    split_ifs at h <;> cases h
  | _ => cases h

theorem Call.interrupted_onWay {call : Call} {cancelled : Bool} :
    (call.interrupted cancelled).onWay = false := by
  rcases Call.interrupted_eq call cancelled with heq | heq <;>
    rw [heq] <;> rfl

theorem Arbiter.onReply_ne_reading {arbiter : Arbiter} {reply : Reply} :
    arbiter.onReply id reply ≠ .reading := by
  cases arbiter <;> simp only [onReply] <;> repeat' split
  all_goals exact fun h => by cases h

theorem claimIntake_ne_one {token : Token} {leaseSeconds : Time} {r : Record (Option Text)}
    (h : ∀ row, r.row? = some row → foreignLease row.intakeClaim now token = true) :
    (claimIntake now token leaseSeconds r).2 ≠ 1 := by
  unfold claimIntake
  cases hrow : r.row? with
  | none => simp
  | some row =>
    dsimp only
    rw [if_pos (h row hrow)]
    split_ifs <;> simp

theorem World.execIf_started {applied : Bool} {command : Option Command} :
    (s.execIf settings applied id now command).started = s.started := by
  cases command with
  | none => rfl
  | some command => cases applied <;> simp [execIf]

namespace LiveInv

theorem exec {command : Command} (h : LiveInv s)
    (hsafe : (s.calls id).onWay = true → Lost s id ∨ command.keepsStatus = true) :
    LiveInv (s.exec settings id now command).1 := by
  refine ⟨?_, fun id' honWay => ?_⟩
  · rw [World.exec_passes]
    exact h.passes
  · rw [World.exec_calls] at honWay
    rw [World.exec_passes]
    obtain hlost | ⟨hintake, hpasses⟩ := h.onWay id' honWay
    · exact .inl hlost.exec
    · by_cases heq : id' = id
      · subst heq
        obtain hlost | hkeeps := hsafe honWay
        · exact .inl hlost.exec
        · exact .inr ⟨World.exec_atIntake hintake hkeeps, hpasses⟩
      · rw [World.exec_records_of_ne heq]
        exact .inr ⟨hintake, hpasses⟩

theorem setCall {call : Call} {ids started : List MessageId} (h : LiveInv s)
    (hcall : call.onWay = true → (s.calls id).onWay = true) :
    LiveInv { s.setCall id call with returned := ids, started := started } := by
  refine ⟨h.passes, fun id' honWay => h.onWay id' ?_⟩
  change (Function.update s.calls id call id').onWay = true at honWay
  rw [Function.update_apply] at honWay
  split_ifs at honWay with heq
  · exact heq ▸ hcall honWay
  · exact honWay

theorem setPass {n : ℕ} {arbiter : Arbiter} (h : LiveInv s) (hreading : arbiter ≠ .reading)
    (hadopted : arbiter.adopted = true → (s.calls id).onWay = true → Lost s id) :
    LiveInv (s.setPass n id arbiter) := by
  refine ⟨fun n' id' arbiter' hpass => ?_, fun id' honWay => ?_⟩
  · change Function.update s.passes n _ n' = _ at hpass
    rw [Function.update_apply] at hpass
    split_ifs at hpass
    · obtain ⟨-, rfl⟩ := Prod.mk.inj (Option.some.inj hpass)
      exact hreading
    · exact h.passes n' id' arbiter' hpass
  · change (s.calls id').onWay = true at honWay
    obtain hlost | ⟨hintake, hpasses⟩ := h.onWay id' honWay
    · exact .inl hlost
    · by_cases hlost : Lost s id'
      · exact .inl hlost
      · refine .inr ⟨hintake, fun n' arbiter' hpass => ?_⟩
        change Function.update s.passes n _ n' = _ at hpass
        rw [Function.update_apply] at hpass
        split_ifs at hpass
        · obtain ⟨rfl, rfl⟩ := Prod.mk.inj (Option.some.inj hpass)
          by_contra hnot
          exact hlost (hadopted (by simpa using hnot) honWay)
        · exact hpasses n' arbiter' hpass

/-- A record is created under its intake lease, or the attempt at it fails. -/
theorem created {record : Record (Option Text)} {call : Call} (h : LiveInv s) (hpair : PairInv s)
    (hunborn : (s.calls id).unborn = true) (hcall : call.onWay = true → AtIntake record) :
    LiveInv ((s.setRecord id record).setCall id call) := by
  refine ⟨h.passes, fun id' honWay => ?_⟩
  change (Function.update s.calls id call id').onWay = true at honWay
  show Lost s id' ∨ AtIntake (Function.update s.records id record id') ∧ _
  by_cases heq : id' = id
  · subst heq
    rw [Function.update_self] at honWay ⊢
    exact .inr ⟨hcall honWay, (hpair.unborn id' hunborn).2⟩
  · rw [Function.update_of_ne heq] at honWay ⊢
    exact h.onWay id' honWay

theorem atIntake_createRecord {data : Option Text} {outboundIds : List String} {attempts : ℤ}
    {token : Token} {r : Record (Option Text)} :
    AtIntake (createRecord settings data .accepted outboundIds attempts now (some token) now r) :=
  ⟨_, rfl, rfl⟩

theorem runCall {admission : Option AddressAdmission} {command : Command} (h : LiveInv s)
    (hpair : PairInv s) (hcommand : (s.calls id).command = some command) :
    LiveInv (s.runCall settings id now admission command) := by
  by_cases hcreating : ∃ admission' token, s.calls id = .creating admission' token
  · obtain ⟨admission', token, hcall⟩ := hcreating
    rw [hcall] at hcommand
    have hunborn : (s.calls id).unborn = true := by
      rw [hcall]
      rfl
    unfold World.runCall
    rw [hcall]
    cases admission' with
    | admitted =>
      obtain rfl := Option.some.inj hcommand
      exact h.created hpair hunborn fun _ => atIntake_createRecord
    | shedWithReply | shedSilent =>
      obtain rfl := Option.some.inj hcommand
      exact h.created hpair hunborn fun honWay => by cases honWay
  · refine (h.exec fun honWay => .inr (Call.keepsStatus_of_onWay hcommand honWay)).setCall ?_
    rw [World.exec_calls]
    exact Call.onReply_onWay fun admission' token heq => hcreating ⟨_, _, heq⟩

theorem execIf {applied : Bool} {command : Option Command} (h : LiveInv s)
    (hsafe : ∀ command', command = some command' → (s.calls id).onWay = true →
      Lost s id ∨ command'.keepsStatus = true) :
    LiveInv (s.execIf settings applied id now command) := by
  cases command with
  | none => exact h
  | some command =>
    cases applied with
    | false => exact h
    | true => exact h.exec (hsafe command rfl)

/-- A pass that has taken a record over whose call is on the way comes too late for the pair. -/
theorem lost {n : ℕ} {arbiter : Arbiter} (h : LiveInv s)
    (hpass : s.passes n = some (id, arbiter)) (hadopted : arbiter.adopted = true)
    (honWay : (s.calls id).onWay = true) : Lost s id := by
  obtain hlost | ⟨-, hpasses⟩ := h.onWay id honWay
  · exact hlost
  · rw [hpasses n arbiter hpass] at hadopted
    cases hadopted

/-- A pass writes to such a record only where the pair is another record's. -/
theorem safe {n : ℕ} {arbiter : Arbiter} {command : Command} (h : LiveInv s)
    (hpass : s.passes n = some (id, arbiter)) (hcommand : arbiter.command = some command)
    (honWay : (s.calls id).onWay = true) : Lost s id ∨ command.keepsStatus = true := by
  cases arbiter with
  | failing | discarding => exact .inl (h.lost hpass rfl honWay)
  | reading | adopting | arbitrating =>
    obtain rfl := Option.some.inj hcommand
    exact .inr rfl
  | done => cases hcommand

theorem step {a : Label} (h : LiveInv s) (hpair : PairInv s) (hok : LeaseCovers s a)
    (hstep : s.next settings a = some s') : LiveInv s' := by
  cases a with
  | accept id token =>
    simp only [World.next, Option.ite_none_right_eq_some, Option.some.injEq] at hstep
    obtain ⟨-, rfl⟩ := hstep
    exact h.setCall fun honWay => by cases honWay
  | call id now admission =>
    simp only [World.next, Option.map_eq_some_iff] at hstep
    obtain ⟨command, hcommand, rfl⟩ := hstep
    exact h.runCall hpair hcommand
  | interrupt id now applied cancelled =>
    simp only [World.next, Option.ite_none_left_eq_some, Option.some.injEq] at hstep
    obtain ⟨-, rfl⟩ := hstep
    refine (h.execIf fun command hcommand honWay =>
      .inr (Call.keepsStatus_of_onWay hcommand honWay)).setCall fun honWay => ?_
    rw [Call.interrupted_onWay] at honWay
    cases honWay
  | crash id =>
    obtain rfl := Option.some.inj hstep
    exact h.setCall fun honWay => by cases honWay
  | startTurn id =>
    simp only [World.next] at hstep
    split at hstep
    · obtain rfl := Option.some.inj hstep
      exact h.setCall fun honWay => by cases honWay
    · cases hstep
  | endTurn id answer =>
    simp only [World.next] at hstep
    split at hstep
    · obtain rfl := Option.some.inj hstep
      exact h.setCall fun honWay => by cases honWay
    · cases hstep
  | refresh id now =>
    simp only [World.next, Option.map_eq_some_iff] at hstep
    obtain ⟨token, -, rfl⟩ := hstep
    exact h.exec fun _ => .inr rfl
  | redrive n id token =>
    simp only [World.next, Option.ite_none_right_eq_some, Option.some.injEq] at hstep
    obtain ⟨-, rfl⟩ := hstep
    exact h.setPass (by simp) fun hadopted => by cases hadopted
  | pass n now =>
    simp only [World.next] at hstep
    split at hstep
    · rename_i id arbiter hpass
      simp only [Option.map_eq_some_iff] at hstep
      obtain ⟨command, hcommand, rfl⟩ := hstep
      refine (h.exec (h.safe hpass hcommand)).setPass Arbiter.onReply_ne_reading
        fun hadopted honWay => ?_
      rw [World.exec_calls] at honWay
      by_cases hbefore : arbiter.adopted = true
      · exact (h.lost hpass hbefore honWay).exec
      · cases arbiter with
        | adopting token =>
          simp only [LeaseCovers, hpass] at hok
          obtain rfl := Option.some.inj hcommand
          obtain hlost | hforeign := hok honWay
          · exact hlost.exec
          · have hcode : (s.exec settings id now (.claimIntake token)).2.code ≠ 1 :=
              claimIntake_ne_one hforeign
            rw [Arbiter.onReply, if_neg hcode] at hadopted
            cases hadopted
        | reading => exact absurd rfl (h.passes n id _ hpass)
        | done => cases hcommand
        | _ => exact absurd rfl hbefore
    · cases hstep
  | passFails n now applied =>
    simp only [World.next] at hstep
    split at hstep
    · rename_i id arbiter hpass
      obtain rfl := Option.some.inj hstep
      exact (h.execIf fun command hcommand => h.safe hpass hcommand).setPass (by simp)
        fun hadopted => by cases hadopted
    · cases hstep
  | deliver id record =>
    simp only [World.next, Option.ite_none_right_eq_some, Option.some.injEq] at hstep
    obtain ⟨⟨hany, -⟩, rfl⟩ := hstep
    refine ⟨h.passes, fun id' honWay => ?_⟩
    obtain hlost | ⟨hintake, hpasses⟩ := h.onWay id' honWay
    · exact .inl hlost
    · refine .inr ⟨?_, hpasses⟩
      show AtIntake (Function.update s.records id record id')
      rw [Function.update_of_ne]
      · exact hintake
      · rintro rfl
        obtain ⟨row, hrow, hstatus⟩ := hintake
        simp [hrow, hstatus] at hany

theorem start : LiveInv .start where
  passes n id arbiter h := by cases h
  onWay id h := by cases h

end LiveInv

/-! ## Every run -/

/-- What holds of a state of the pair, and of its next step. -/
structure InboundOnce (settings : ConversationsSettings) (s : World) : Prop where
  /-- All calls that return answer the same id. -/
  answers : ∀ id ∈ s.returned, ∀ id' ∈ s.returned, id = id'
  turns : s.started.length ≤ 1
  outcomes : s.completed.length ≤ 1
  /-- A turn is only started for a record that is there and has no outcome. -/
  live : ∀ a s' id, (coveredInbound settings).step s a s' → s'.started = id :: s.started →
    AtIntake (s.records id)

theorem World.eq_startTurn {a : Label} (hstep : s.next settings a = some s')
    (hstarted : s'.started = id :: s.started) : a = .startTurn id ∧
      ∃ token, s.calls id = .scheduled token := by
  have hgrows : s.started ≠ id :: s.started := by simp
  cases a with
  | startTurn id' =>
    simp only [World.next] at hstep
    split at hstep
    · rename_i token hcall
      obtain rfl := Option.some.inj hstep
      obtain rfl : id' = id := by simpa using hstarted
      exact ⟨rfl, token, hcall⟩
    · cases hstep
  | accept | redrive | deliver =>
    simp only [World.next, Option.ite_none_right_eq_some, Option.some.injEq] at hstep
    obtain ⟨-, rfl⟩ := hstep
    exact absurd hstarted hgrows
  | call id' now admission =>
    simp only [World.next, Option.map_eq_some_iff] at hstep
    obtain ⟨command, -, rfl⟩ := hstep
    refine absurd hstarted ?_
    show (s.exec settings id' now command).1.started ≠ _
    rw [exec_started]
    exact hgrows
  | interrupt id' now applied cancelled =>
    simp only [World.next, Option.ite_none_left_eq_some, Option.some.injEq] at hstep
    obtain ⟨-, rfl⟩ := hstep
    refine absurd hstarted ?_
    show (s.execIf settings applied id' now _).started ≠ _
    rw [execIf_started]
    exact hgrows
  | refresh id' now =>
    simp only [World.next, Option.map_eq_some_iff] at hstep
    obtain ⟨token, -, rfl⟩ := hstep
    rw [exec_started] at hstarted
    exact absurd hstarted hgrows
  | crash id' =>
    obtain rfl := Option.some.inj hstep
    exact absurd hstarted hgrows
  | endTurn id' answer =>
    simp only [World.next] at hstep
    split at hstep
    · obtain rfl := Option.some.inj hstep
      exact absurd hstarted hgrows
    · cases hstep
  | pass n now =>
    simp only [World.next] at hstep
    split at hstep
    · simp only [Option.map_eq_some_iff] at hstep
      obtain ⟨command, -, rfl⟩ := hstep
      refine absurd hstarted ?_
      show (s.exec settings _ now command).1.started ≠ _
      rw [exec_started]
      exact hgrows
    · cases hstep
  | passFails n now applied =>
    simp only [World.next] at hstep
    split at hstep
    · obtain rfl := Option.some.inj hstep
      refine absurd hstarted ?_
      show (s.execIf settings applied _ now _).started ≠ _
      rw [execIf_started]
      exact hgrows
    · cases hstep

/-- However often a message is delivered, whatever awaits fail and whatever workers die, one turn
at most is started for it, one record at most gets an outcome, and all calls answer with its id;
and the turn is started for a record that no pass has resolved. -/
theorem inboundOnce_of_leaseCovers (h : (coveredInbound settings).Reachable s) :
    InboundOnce settings s := by
  obtain ⟨hpair, hlive⟩ : PairInv s ∧ LiveInv s := by
    refine h.invariant (p := fun s => PairInv s ∧ LiveInv s) ?_ ?_
    · rintro s rfl
      exact ⟨.start, .start⟩
    · rintro s a s' ⟨hpair, hlive⟩ ⟨hok, hstep⟩
      exact ⟨hpair.step hstep, hlive.step hpair hok hstep⟩
  refine ⟨fun id hid id' hid' => ?_, ?_, ?_, fun a s' id hstep hstarted => ?_⟩
  · exact Option.some.inj ((hpair.returned id hid).symm.trans (hpair.returned id' hid'))
  · obtain hnil | ⟨id, hone, -⟩ := hpair.started
    · simp [hnil]
    · simp [hone]
  · obtain hnil | ⟨id, hone, -⟩ := hpair.completed
    · simp [hnil]
    · simp [hone]
  · obtain ⟨-, token, hcall⟩ := World.eq_startTurn hstep.2 hstarted
    obtain ⟨owner, hmarker, hne⟩ | ⟨hintake, -⟩ := hlive.onWay id (by rw [hcall]; rfl)
    · have hown := hpair.committed id (by rw [hcall]; rfl)
      exact absurd (Option.some.inj (hmarker.symm.trans hown)) hne
    · exact hintake

/-- The steps that `LeaseCovers` admits while the pair is not another record's. -/
def coveredNow (s : World) : Label → Bool
  | .pass n now =>
    match s.passes n with
    | some (id, .adopting token) => !(s.calls id).onWay ||
      (s.records id).row?.all fun row => foreignLease row.intakeClaim now token
    | _ => true
  | _ => true

theorem leaseCovers_of_coveredNow {a : Label} (h : coveredNow s a = true) : LeaseCovers s a := by
  cases a with
  | pass n now =>
    simp only [coveredNow] at h
    simp only [LeaseCovers]
    split
    · rename_i id token hpass
      intro honWay
      rw [hpass] at h
      refine .inr fun row hrow => ?_
      simpa [honWay, hrow] using h
    · trivial
  | _ => trivial

/-- Two deliveries of a message overlap and a re-drive comes in between; a third delivery is
answered from the marker. -/
theorem inboundOnce_redelivered : ∃ s, (coveredInbound defaultSettings).Reachable s ∧
    s.returned = [2, 2, 2] ∧ s.started = [2] ∧ s.completed = [2] ∧
    InboundOnce defaultSettings s := by
  obtain ⟨s, hs, hp⟩ := System.Reachable.of_foldlM (S := coveredInbound defaultSettings)
    (f := System.guarded (World.next defaultSettings) coveredNow) (s := .start)
    (p := fun s => s.returned == [2, 2, 2] && s.started == [2] && s.completed == [2])
    (l := [.accept 1 11, .accept 2 12, .call 1 0 (some .admitted), .call 2 0 (some .admitted),
      .call 1 1 none, .call 2 1 none, .call 2 2 none, .redrive 0 2 13, .pass 0 60, .call 1 61 none,
      .call 1 62 none, .startTurn 2, .endTurn 2 "hello".toList, .call 2 63 none, .accept 3 14,
      .call 3 70 none])
    (fun s a s' h => ⟨leaseCovers_of_coveredNow (System.step_of_guarded h).1,
      (System.step_of_guarded h).2⟩) rfl (by decide +kernel)
  simp only [Bool.and_eq_true, beq_iff_eq] at hp
  exact ⟨s, hs, hp.1.1, hp.1.2, hp.2, inboundOnce_of_leaseCovers hs⟩

/-- An `accept` is delayed between the write of its record and the claim of the pair; a re-drive
takes the lapsed lease and gives the record the error outcome; then the turn is started. -/
theorem turn_after_outcome : ∃ s s' row, (inbound defaultSettings).Reachable s ∧
    s.next defaultSettings (.startTurn 1) = some s' ∧ s'.started = [1] ∧
    (s.records 1).row? = some row ∧ row.deliveryStatus = .pendingDelivery ∧
    row.data = some errorAnswerText := by
  obtain ⟨s, hs, hp⟩ := System.Reachable.of_foldlM (S := inbound defaultSettings)
    (f := World.next defaultSettings) (s := .start)
    (p := fun s => (s.next defaultSettings (.startTurn 1)).any fun s' => s'.started == [1] &&
      (s.records 1).row?.any fun row =>
        row.deliveryStatus == .pendingDelivery && row.data == some errorAnswerText)
    (l := [.accept 1 11, .call 1 0 (some .admitted), .call 1 0 none, .redrive 0 1 13, .pass 0 200,
      .pass 0 200, .pass 0 200, .call 1 201 none])
    (fun s a s' h => h) rfl (by decide +kernel)
  simp only [Option.any_eq_true, Bool.and_eq_true, beq_iff_eq] at hp
  obtain ⟨s', hnext, hstarted, row, hrow, hstatus, hdata⟩ := hp
  exact ⟨s, s', row, hs, hnext, hstarted, hrow, hstatus, hdata⟩

end TaiSkeleton.Conversations.Inbound
