import TaiSkeleton.Interactions.Counts

/-!
# The listing of the groups

A group with a pending question whose deadline has not passed is in the index of the groups, and
in the index of the deadlines at a score that reaches its deadline. The purge of an `add` decides
inside its script; `backlog` reads that a group's stream is gone, and drops the group by two
commands of their own. Where no `add` revives the group in between, no group with a live question
is dropped.
-/

namespace TaiSkeleton.Interactions

open Lib Keys

variable {idleTtl : Time} {s s' : World} {k : Keys} {id : InteractionId} {group : GroupId}

/-- The group that `backlog` is about to drop from an index. -/
def Task.unlists : Task → Option GroupId
  | .backlog _ (group :: _) _ .unlisting | .backlog _ (group :: _) _ .undating => some group
  | _ => none

/-- A group that `backlog` drops still has no stream. -/
def DropsDead (s : World) : Label → Prop
  | .step n _ => ∀ group, (s.tasks n).unlists = some group → s.readStream group = []
  | _ => True

/-- The runs in which `backlog` drops no group that has been revived. -/
def steadyInteractions (idleTtl : Time) : System World Label :=
  (interactions idleTtl).when DropsDead

/-- The group is in both indexes, in that of the deadlines at a score that reaches `deadline`. -/
def Keys.Lists (k : Keys) (group : GroupId) (deadline : Time) : Prop :=
  (∃ score, k.pending.score? group = some score) ∧
    ∃ score, k.pendingDeadline.score? group = some score ∧ deadline ≤ score

structure ListInv (idleTtl : Time) (s : World) : Prop where
  nonempty : ∀ group stream, s.keys.streams group = some stream → stream.value ≠ []
  /-- A pending question does not outlive its group's stream. -/
  streamed : ∀ id state, s.keys.states id = some state → state.value.status = .pending →
    s.clock ≤ state.expiresAt → ∃ stream,
      s.keys.streams state.value.request.groupId = some stream ∧
        state.expiresAt ≤ stream.expiresAt
  bound : ∀ group stream, s.keys.streams group = some stream →
    stream.expiresAt ≤ s.clock + idleTtl
  listed : ∀ id state, s.keys.states id = some state → state.value.status = .pending →
    s.clock ≤ state.expiresAt → s.clock < state.value.request.timeoutAt →
    s.keys.Lists state.value.request.groupId state.value.request.timeoutAt

/-! ## The commands on the indexes -/

theorem score?_foldl_drop {groups : List GroupId} (h : group ∉ groups) :
    (groups.foldl (fun k group => (k.dropPending group).dropDeadline group) k).pending.score? group
        = k.pending.score? group ∧
      (groups.foldl (fun k group => (k.dropPending group).dropDeadline group)
        k).pendingDeadline.score? group = k.pendingDeadline.score? group := by
  induction groups generalizing k with
  | nil => exact ⟨rfl, rfl⟩
  | cons dropped groups ih =>
    rw [List.mem_cons, not_or] at h
    obtain ⟨hpending, hdeadline⟩ := ih (k := (k.dropPending dropped).dropDeadline dropped) h.2
    rw [List.foldl_cons, hpending, hdeadline]
    exact ⟨SortedSet.score?_rem_of_ne h.1, SortedSet.score?_rem_of_ne h.1⟩

/-- The purge of an `add` leaves a group whose furthest deadline is ahead. -/
theorem Keys.Lists.pendingPurge {now deadline : Time} {current : GroupId}
    (h : k.Lists group deadline) (hahead : now < deadline) :
    (k.pendingPurge now current).Lists group deadline := by
  obtain ⟨⟨created, hcreated⟩, score, hscore, hle⟩ := h
  have hnot : group ∉ (k.pendingDeadline.rangeByScore 0 now).filter (· ≠ current) := by
    intro hmem
    obtain ⟨score', hscore', -, hpassed⟩ :=
      SortedSet.mem_rangeByScore.mp (List.mem_filter.mp hmem).1
    obtain rfl := Option.some.inj (hscore.symm.trans hscore')
    exact absurd (lt_of_lt_of_le hahead hle) (not_lt.mpr hpassed)
  obtain ⟨hpending, hdeadline⟩ := score?_foldl_drop (k := k) hnot
  exact ⟨⟨created, hpending.trans hcreated⟩, score, hdeadline.trans hscore, hle⟩

theorem Keys.Lists.dropPending {deadline : Time} {dropped : GroupId} (h : k.Lists group deadline)
    (hne : group ≠ dropped) : (k.dropPending dropped).Lists group deadline := by
  obtain ⟨⟨created, hcreated⟩, hscore⟩ := h
  exact ⟨⟨created, (SortedSet.score?_rem_of_ne hne).trans hcreated⟩, hscore⟩

theorem Keys.Lists.dropDeadline {deadline : Time} {dropped : GroupId} (h : k.Lists group deadline)
    (hne : group ≠ dropped) : (k.dropDeadline dropped).Lists group deadline := by
  obtain ⟨hcreated, score, hscore, hle⟩ := h
  exact ⟨hcreated, score, (SortedSet.score?_rem_of_ne hne).trans hscore, hle⟩

/-- An `add` lists its group, and leaves the others. -/
theorem Keys.Added.lists {clock expiresAt : Time} {request : InteractionRequest}
    {siblings : List InteractionId} {k' : Keys} (h : Added clock expiresAt request siblings k k') :
    k'.Lists request.groupId request.timeoutAt ∧
      ∀ group deadline, k.Lists group deadline → k'.Lists group deadline := by
  obtain ⟨new, hnew, hle, hgrows⟩ :=
    SortedSet.score?_addGT_self k.pendingDeadline request.groupId request.timeoutAt
  have hown : ∃ score, k'.pending.score? request.groupId = some score := by
    rw [h.pending]
    exact ⟨_, SortedSet.score?_add_self⟩
  have hdeadline : k'.pendingDeadline.score? request.groupId = some new := by
    rw [h.pendingDeadline]
    exact hnew
  refine ⟨⟨hown, new, hdeadline, hle⟩, ?_⟩
  rintro group deadline ⟨hlisted, score, hscore, hreach⟩
  by_cases hgroup : group = request.groupId
  · subst hgroup
    exact ⟨hown, new, hdeadline, hreach.trans (hgrows score hscore)⟩
  · refine ⟨?_, score, ?_, hreach⟩
    · rw [h.pending, SortedSet.score?_add_of_ne hgroup]
      exact hlisted
    · rw [h.pendingDeadline, SortedSet.score?_addGT_of_ne hgroup]
      exact hscore

/-! ## The steps -/

namespace ListInv

/-- The questions and the streams stand while time may pass. -/
theorem frame (h : ListInv idleTtl s) (hclock : s.clock ≤ s'.clock)
    (hstreams : s'.keys.streams = s.keys.streams) (hstates : s'.keys.states = s.keys.states)
    (hlists : ∀ id state, s.keys.states id = some state → state.value.status = .pending →
      s.clock ≤ state.expiresAt → s.clock < state.value.request.timeoutAt →
      s.keys.Lists state.value.request.groupId state.value.request.timeoutAt →
      s'.keys.Lists state.value.request.groupId state.value.request.timeoutAt) :
    ListInv idleTtl s' := by
  refine ⟨hstreams ▸ h.nonempty, ?_, fun group stream hstream => ?_, ?_⟩
  · rw [hstates, hstreams]
    exact fun id state hstate hstatus hlive =>
      h.streamed id state hstate hstatus (hclock.trans hlive)
  · rw [hstreams] at hstream
    exact (h.bound group stream hstream).trans (Int.add_le_add_right hclock _)
  · rw [hstates]
    intro id state hstate hstatus hlive hahead
    exact hlists id state hstate hstatus (hclock.trans hlive) (lt_of_le_of_lt hclock hahead)
      (h.listed id state hstate hstatus (hclock.trans hlive) (lt_of_le_of_lt hclock hahead))

/-- A group without a stream has no pending question. -/
theorem ne_of_dead {state : Expiring InteractionState} (h : ListInv idleTtl s)
    (hdead : s.readStream group = []) (hstate : s.keys.states id = some state)
    (hstatus : state.value.status = .pending) (hlive : s.clock ≤ state.expiresAt) :
    state.value.request.groupId ≠ group := by
  rintro rfl
  obtain ⟨stream, hstream, hle⟩ := h.streamed id state hstate hstatus hlive
  unfold World.readStream at hdead
  rw [Expiring.read_eq_some.mpr ⟨stream, hstream, hlive.trans hle, rfl⟩] at hdead
  exact h.nonempty _ stream hstream hdead

theorem added {request : InteractionRequest} {siblings : List InteractionId}
    (h : ListInv idleTtl s) (hkeys : KeysInv idleTtl s) (hclock : s'.clock = s.clock)
    (hadded : Added s.clock (s.clock + idleTtl) request siblings s.keys s'.keys)
    (hsiblings : ∀ id ∈ siblings, Asked s id request.groupId) : ListInv idleTtl s' := by
  obtain ⟨hown, hothers⟩ := hadded.lists
  refine ⟨fun group stream hstream => ?_, fun id new hnew hstatus hlive => ?_,
    fun group stream hstream => ?_, fun id new hnew hstatus hlive hahead => ?_⟩
  · by_cases hgroup : group = request.groupId
    · subst hgroup
      rw [hadded.stream] at hstream
      obtain rfl := Option.some.inj hstream
      simp
    · rw [hadded.streams group hgroup] at hstream
      exact h.nonempty group stream hstream
  · rw [hclock] at hlive
    obtain ⟨-, hrequest, hexpiry⟩ | ⟨-, hold⟩ | ⟨-, hexpiry, -, -, -, -, hgroup⟩ :=
      hkeys.states_of_added hadded hsiblings hnew
    · rw [hrequest]
      exact ⟨_, hadded.stream, le_of_eq hexpiry⟩
    · obtain ⟨stream, hstream, hle⟩ := h.streamed id new hold hstatus hlive
      by_cases hgroup : new.value.request.groupId = request.groupId
      · rw [hgroup] at hstream ⊢
        exact ⟨_, hadded.stream, hle.trans (h.bound _ stream hstream)⟩
      · rw [hadded.streams _ hgroup]
        exact ⟨stream, hstream, hle⟩
    · rw [hgroup]
      exact ⟨_, hadded.stream, le_of_eq hexpiry⟩
  · rw [hclock]
    by_cases hgroup : group = request.groupId
    · subst hgroup
      rw [hadded.stream] at hstream
      obtain rfl := Option.some.inj hstream
      exact le_refl _
    · rw [hadded.streams group hgroup] at hstream
      exact h.bound group stream hstream
  · rw [hclock] at hlive hahead
    obtain ⟨-, hrequest, -⟩ | ⟨-, hold⟩ | ⟨-, -, old, hold, hlive', hvalue, -⟩ :=
      hkeys.states_of_added hadded hsiblings hnew
    · rw [hrequest]
      exact hown
    · exact hothers _ _ (h.listed id new hold hstatus hlive hahead)
    · rw [← hvalue] at hstatus hahead ⊢
      exact hothers _ _ (h.listed id old hold hstatus hlive' hahead)

/-- A question is resolved: its group is dropped only where no other is pending. -/
theorem resolved {state : Expiring InteractionState} {count : Expiring ℤ} {remaining : ℤ}
    (h : ListInv idleTtl s) (hkeys' : KeysInv idleTtl s') (hclock : s'.clock = s.clock)
    (hdone : Resolved id group state count remaining s.keys s'.keys)
    (hempty : s'.keys.counts group = none → s'.pendingIn group = 0) : ListInv idleTtl s' := by
  have hold : ∀ id' new, s'.keys.states id' = some new → new.value.status = .pending →
      s.keys.states id' = some new := by
    intro id' new hnew hstatus
    have hid : id' ≠ id := by
      rintro rfl
      rw [(hdone.state new hnew).1] at hstatus
      cases hstatus
    exact hdone.states id' hid ▸ hnew
  refine ⟨hdone.streams ▸ h.nonempty, fun id' new hnew hstatus hlive => ?_, ?_,
    fun id' new hnew hstatus hlive hahead => ?_⟩
  · rw [hdone.streams]
    exact h.streamed id' new (hold id' new hnew hstatus) hstatus (hclock ▸ hlive)
  · rw [hdone.streams, hclock]
    exact h.bound
  · have hlists := h.listed id' new (hold id' new hnew hstatus) hstatus (hclock ▸ hlive)
      (hclock ▸ hahead)
    have hpending := hdone.pending
    have hdeadline := hdone.pendingDeadline
    have hcount := hdone.count
    split_ifs at hpending hdeadline hcount
    · have hne : new.value.request.groupId ≠ group := by
        rintro rfl
        obtain ⟨hmem, hid⟩ := hkeys'.states id' new hnew
        have hno := List.countP_eq_zero.mp (hempty hcount) _ hmem
        have hp : s'.isPending new.value.request.interactionId = true :=
          World.isPending_iff.mpr ⟨new, hid.symm ▸ hnew, hlive, hstatus⟩
        exact hno (by simp [hp])
      obtain ⟨⟨created, hcreated⟩, score, hscore, hle⟩ := hlists
      refine ⟨⟨created, ?_⟩, score, ?_, hle⟩
      · rw [hpending, SortedSet.score?_rem_of_ne hne]
        exact hcreated
      · rw [hdeadline, SortedSet.score?_rem_of_ne hne]
        exact hscore
    · unfold Keys.Lists
      rw [hpending, hdeadline]
      exact hlists

theorem step {a : Label} (h : ListInv idleTtl s) (hinv : CountInv idleTtl s)
    (hok : DropsDead s a) (hstep : s.next idleTtl a = some s') : ListInv idleTtl s' := by
  have hinv' := hinv.step hstep
  have hclock := World.clock_le_next hstep
  cases World.writes_of_next hstep with
  | none hkeys =>
    exact h.frame hclock (hkeys ▸ rfl) (hkeys ▸ rfl) fun _ _ _ _ _ _ hlists => hkeys.symm ▸ hlists
  | reserve hkeys =>
    have hlists : s'.keys.pending = s.keys.pending ∧
        s'.keys.pendingDeadline = s.keys.pendingDeadline := by
      rw [hkeys]
      unfold openReserve
      dsimp only
      split_ifs <;> exact ⟨rfl, rfl⟩
    have hsame := hkeys.symm ▸ sameData_openReserve _ _ _
    refine h.frame hclock hsame.streams hsame.states fun _ _ _ _ _ _ hbefore => ?_
    unfold Keys.Lists
    rw [hlists.1, hlists.2]
    exact hbefore
  | purge hread hkeys hsame htorn =>
    have hdata := hkeys.symm ▸ sameData_pendingPurge
    refine h.frame hclock hdata.streams hdata.states fun _ _ _ _ _ hahead hbefore => ?_
    rw [hkeys]
    exact hbefore.pendingPurge (lt_of_le_of_lt hread hahead)
  | add htask hkeys hsame htorn =>
    rename_i n now request siblings reserved
    have hok := hinv.tasks n
    rw [htask] at hok
    exact h.added hinv.toKeysInv hsame (hkeys.symm ▸ added_addQuestion _ _ _ _ _ _) hok.2.2.2
  | unlist htask hkeys hsame htorn =>
    rename_i n now now' group rest found
    have hdead := hok group (by rw [htask]; rfl)
    refine h.frame hclock (hkeys ▸ rfl) (hkeys ▸ rfl)
      fun id state hstate hstatus hlive _ hbefore => ?_
    rw [hkeys]
    exact hbefore.dropPending (h.ne_of_dead hdead hstate hstatus hlive)
  | undate htask hkeys hsame htorn =>
    rename_i n now now' group rest found
    have hdead := hok group (by rw [htask]; rfl)
    refine h.frame hclock (hkeys ▸ rfl) (hkeys ▸ rfl)
      fun id state hstate hstatus hlive _ hbefore => ?_
    rw [hkeys]
    exact hbefore.dropDeadline (h.ne_of_dead hdead hstate hstatus hlive)
  | resolve htask hkeys hsame hasked htorn =>
    rename_i n now resolution id group stage
    obtain hnone | ⟨state, count, remaining, hstate, hcount, hdone⟩ := World.resolve_keys (s := s)
      resolution id group stage
    · have hkeys' := hkeys.trans hnone
      exact h.frame hclock (hkeys' ▸ rfl) (hkeys' ▸ rfl)
        fun _ _ _ _ _ _ hlists => hkeys'.symm ▸ hlists
    · rw [← hkeys] at hdone
      exact h.resolved hinv'.toKeysInv hsame hdone (hinv.dropped hstep hcount)

theorem start : ListInv idleTtl .start where
  nonempty _ _ h := by cases h
  streamed _ _ h := by cases h
  bound _ _ h := by cases h
  listed _ _ h := by cases h

end ListInv

/-! ## Every run -/

/-- Every group with a live question is listed. -/
def Listed (s : World) : Prop :=
  ∀ request ∈ s.asked, s.isPending request.interactionId = true → s.clock < request.timeoutAt →
    s.keys.Lists request.groupId request.timeoutAt

instance (s : World) (a : Label) : Decidable (DropsDead s a) := by
  cases a with
  | step n now =>
    show Decidable (∀ group, (s.tasks n).unlists = some group → s.readStream group = [])
    cases hunlists : (s.tasks n).unlists with
    | none => exact .isTrue fun _ h => by cases h
    | some group =>
      exact decidable_of_iff (s.readStream group = [])
        ⟨fun h _ heq => Option.some.inj heq ▸ h, fun h => h group rfl⟩
  | _ => exact .isTrue trivial

/-- A later question of the same group. -/
def nextQuestion : InteractionRequest := ⟨8, 1, 86400001, 90000001, false⟩

/-- The keys of `question` run out, and `backlog` finds the stream of its group gone. -/
def streamFoundGone : List Label :=
  questionAsked ++ .tick 86400001 :: .backlog 1 86400001 :: List.replicate 2 (.step 1 86400001)

/-- `nextQuestion` is asked. -/
def nextQuestionAsked : List Label :=
  .add 2 nextQuestion false :: List.replicate 3 (.step 2 86400001)

end TaiSkeleton.Interactions
