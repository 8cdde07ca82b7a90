import TaiSkeleton.Interactions.Inbox
import TaiSkeleton.Interactions.Listing

/-!
# The events and the pending questions

While no key runs out, a question becomes pending with its `add` event and stops being so with the
event of the call that resolves it, of which there is one at most; and its entry is in the stream of
its group, which the index of the groups leads to.
-/

namespace TaiSkeleton.Interactions

open Lib Keys

variable {idleTtl : Time} {s s' : World} {id : InteractionId} {group : GroupId} {a : Label}

/-- The event ends the question. -/
def Event.Ends (event : Event) (id : InteractionId) : Prop :=
  event.interactionId = id ∧ event.type ≠ .add

/-- The event announces the question. -/
def Event.Adds (event : Event) (id : InteractionId) : Prop :=
  event.interactionId = id ∧ event.type = .add

/-- The state hash of the question says that it is pending. -/
def World.Pending (s : World) (id : InteractionId) : Prop :=
  ∃ state, s.keys.states id = some state ∧ state.value.status = .pending

/-- What a step of the store does to the questions, with the events that it appends. -/
structure Follows (s s' : World) (events : List Event) : Prop where
  asked : s.asked ⊆ s'.asked
  lost : ∀ id, s.Pending id → s'.Pending id ∨ ∃ event ∈ events, event.Ends id
  gained : ∀ id, s'.Pending id → s.Pending id ∨ ∃ event ∈ events, event.Adds id
  kept : ∀ id state, s'.keys.states id = some state → state.value.status = .answered →
    (∃ old, s.keys.states id = some old ∧ old.value.status = .answered) ∨ 0 < s'.resolutions id
  counts : ∀ id, s.resolutions id ≤ s'.resolutions id
  ends : ∀ id, s.resolutions id < s'.resolutions id → ∃ event ∈ events, event.Ends id
  ended : ∀ event ∈ events, ∀ id, event.Ends id → 0 < s'.resolutions id
  adds : ∀ event ∈ events, ∀ id, event.Adds id → s'.resolutions id = 0
  one : events.length ≤ 1

/-- A question is held whose state hash says so, as long as no key runs out. -/
theorem isPending_of_live (hinv : CountInv idleTtl s) (hlive : s.live = true) :
    s.isPending id = true ↔ s.Pending id := by
  rw [World.isPending_iff]
  constructor
  · rintro ⟨state, hstate, -, hstatus⟩
    exact ⟨state, hstate, hstatus⟩
  · rintro ⟨state, hstate, hstatus⟩
    obtain ⟨hasked, rfl⟩ := hinv.states _ state hstate
    have hkeys := List.all_eq_true.mp hlive _ hasked
    simp only [Bool.and_eq_true, Option.all_eq_true, decide_eq_true_eq] at hkeys
    exact ⟨state, hstate, hkeys.1.1 state hstate, hstatus⟩

theorem readState_of_live (hinv : CountInv idleTtl s) (hlive : s.live = true)
    {state : Expiring InteractionState} (hstate : s.keys.states id = some state) :
    s.readState id = some state.value := by
  obtain ⟨hasked, rfl⟩ := hinv.states _ state hstate
  have hkeys := List.all_eq_true.mp hlive _ hasked
  simp only [Bool.and_eq_true, Option.all_eq_true, decide_eq_true_eq] at hkeys
  exact Expiring.read_eq_some.mpr ⟨state, hstate, hkeys.1.1 state hstate, rfl⟩

/-- A command of a call claims the question, or leaves the keys as they are. -/
theorem World.resolve_spec (resolution : Resolution) (id : InteractionId) (group : GroupId)
    (stage : Stage) :
    ((s.resolve resolution id group stage).2 = .returned true ∧
      ∃ sensitive remaining state count, (s.resolve resolution id group stage).1 =
        s.execute resolution id group sensitive remaining state count) ∨
    ((s.resolve resolution id group stage).2 ≠ .returned true ∧
      (s.resolve resolution id group stage).1.asked = s.asked ∧
      (s.resolve resolution id group stage).1.keys = s.keys ∧
      (s.resolve resolution id group stage).1.answered = s.answered ∧
      (s.resolve resolution id group stage).1.pruned = s.pruned ∧
      (s.resolve resolution id group stage).1.tasks = s.tasks) := by
  have hread : ∀ outcome, outcome ≠ Outcome.returned true → outcome ≠ .returned true ∧
      s.asked = s.asked ∧ s.keys = s.keys ∧ s.answered = s.answered ∧ s.pruned = s.pruned ∧
      s.tasks = s.tasks :=
    fun _ hne => ⟨hne, rfl, rfl, rfl, rfl, rfl⟩
  cases stage with
  | watching => exact .inr (hread _ fun heq => by cases heq)
  | readingStatus watch =>
    simp only [World.resolve]
    split
    · exact .inr (hread _ fun heq => by cases heq)
    · split_ifs
      · exact .inr (hread _ fun heq => by cases heq)
      · cases resolution <;> exact .inr (hread _ fun heq => by cases heq)
  | readingSensitive watch => exact .inr (hread _ fun heq => by cases heq)
  | readingCount watch sensitive =>
    simp only [World.resolve]
    split <;> exact .inr (hread _ fun heq => by cases heq)
  | executing watch sensitive remaining =>
    simp only [World.resolve]
    split
    · next state count _ _ =>
      split_ifs
      · exact .inl ⟨rfl, sensitive, remaining, state, count, rfl⟩
      · exact .inr (hread _ fun heq => by cases heq)
    · exact .inr (hread _ fun heq => by cases heq)

theorem World.resolve_tasks (resolution : Resolution) (id : InteractionId) (group : GroupId)
    (stage : Stage) : (s.resolve resolution id group stage).1.tasks = s.tasks := by
  obtain ⟨-, sensitive, remaining, state, count, hdone⟩ | ⟨-, -, -, -, -, htasks⟩ :=
    World.resolve_spec (s := s) resolution id group stage
  · rw [hdone]
    cases resolution <;> rfl
  · exact htasks

namespace Follows

/-- Nothing happens to the questions. -/
theorem same (hasked : s.asked ⊆ s'.asked) (hstates : s'.keys.states = s.keys.states)
    (hanswered : s'.answered = s.answered) (hpruned : s'.pruned = s.pruned) :
    Follows s s' [] := by
  have hresolutions : ∀ id, s'.resolutions id = s.resolutions id := by
    intro id
    rw [World.resolutions, World.resolutions, hanswered, hpruned]
  refine ⟨hasked, fun id h => .inl ?_, fun id h => .inl ?_, fun id state hstate hstatus =>
    .inl ⟨state, hstates ▸ hstate, hstatus⟩, fun id => (hresolutions id).ge, fun id hlt => ?_,
    fun event hevent => (by cases hevent), fun event hevent => (by cases hevent), Nat.zero_le _⟩
  · unfold World.Pending
    rwa [hstates]
  · unfold World.Pending at h
    rwa [hstates] at h
  · rw [hresolutions] at hlt
    exact absurd hlt (lt_irrefl _)

/-- A question is asked, and its siblings are refreshed. -/
theorem added {n : ℕ} {now : Time} {request : InteractionRequest} {siblings : List InteractionId}
    {reserved : Bool} (hinv : CountInv idleTtl s)
    (htask : s.tasks n = .adding request reserved (.committing siblings)) :
    Follows s (s.stepAdd idleTtl n now request reserved (.committing siblings))
      [⟨.add, request.interactionId, request.groupId⟩] := by
  obtain ⟨-, hnone, hzero, -⟩ : TaskOk s (.adding request reserved (.committing siblings)) :=
    htask ▸ hinv.tasks n
  have hdone := added_addQuestion (k := s.keys) idleTtl s.clock now request siblings reserved
  have hother : ∀ {id state}, id ≠ request.interactionId →
      (s.keys.addQuestion idleTtl s.clock now request siblings reserved).states id = some state →
      ∃ old, s.keys.states id = some old ∧ old.value = state.value := by
    intro id state hne hstate
    obtain hsame | ⟨-, value, hread, hnew⟩ := hdone.states id hne
    · exact ⟨state, hsame ▸ hstate, rfl⟩
    · obtain ⟨old, hold, -, rfl⟩ := Expiring.read_eq_some.mp hread
      obtain rfl := Option.some.inj (hnew.symm.trans hstate)
      exact ⟨old, hold, rfl⟩
  obtain ⟨response, hstate⟩ := hdone.state
  refine ⟨List.Subset.refl _, fun id h => ?_, fun id h => ?_, fun id state hnew hstatus => ?_,
    fun _ => le_rfl, fun _ hlt => absurd hlt (lt_irrefl _), fun event hevent id hends => ?_,
    fun event hevent id hadds => ?_, le_rfl⟩
  · obtain ⟨old, hold, hstatus⟩ := h
    have hne : id ≠ request.interactionId := by
      rintro rfl
      rw [hnone] at hold
      cases hold
    refine .inl ?_
    obtain hsame | ⟨-, value, hread, hnew⟩ := hdone.states id hne
    · exact ⟨old, hsame.trans hold, hstatus⟩
    · obtain ⟨old', hold', -, rfl⟩ := Expiring.read_eq_some.mp hread
      obtain rfl := Option.some.inj (hold.symm.trans hold')
      exact ⟨_, hnew, hstatus⟩
  · by_cases hid : id = request.interactionId
    · exact .inr ⟨_, List.mem_singleton_self _, hid.symm, rfl⟩
    · obtain ⟨state, hnew, hstatus⟩ := h
      obtain ⟨old, hold, hvalue⟩ := hother hid hnew
      exact .inl ⟨old, hold, by rw [hvalue]; exact hstatus⟩
  · by_cases hid : id = request.interactionId
    · subst hid
      obtain rfl := Option.some.inj (hstate.symm.trans hnew)
      cases hstatus
    · obtain ⟨old, hold, hvalue⟩ := hother hid hnew
      exact .inl ⟨old, hold, by rw [hvalue]; exact hstatus⟩
  · obtain rfl := List.mem_singleton.mp hevent
    exact absurd rfl hends.2
  · obtain rfl := List.mem_singleton.mp hevent
    obtain ⟨rfl, -⟩ := hadds
    exact hzero

/-- `EXEC` of a call that resolves a question. -/
theorem executed (resolution : Resolution) {sensitive : Bool} {remaining : ℤ}
    {state : Expiring InteractionState} {count : Expiring ℤ} :
    Follows s (s.execute resolution id group sensitive remaining state count)
      [⟨resolution.event, id, group⟩] := by
  have hdone := resolved_execute (s := s) resolution id group sensitive remaining state count
  have hasked : (s.execute resolution id group sensitive remaining state count).asked =
      s.asked := by
    cases resolution <;> rfl
  have hresolutions : ∀ id',
      (s.execute resolution id group sensitive remaining state count).resolutions id' =
        s.resolutions id' + if id' = id then 1 else 0 := by
    intro id'
    by_cases hid : id' = id
    · subst hid
      cases resolution <;> simp [World.execute, World.resolutions] <;> omega
    · cases resolution <;> simp [World.execute, World.resolutions, hid]
  have hends : Event.Ends ⟨resolution.event, id, group⟩ id :=
    ⟨rfl, by cases resolution <;> exact fun heq => by cases heq⟩
  refine ⟨hasked ▸ List.Subset.refl _, fun id' h => ?_, fun id' h => .inl ?_,
    fun id' new hnew hstatus => ?_, fun id' => ?_, fun id' hlt => ?_,
    fun event hevent id' hid => ?_, fun event hevent id' hid => ?_, le_rfl⟩
  · by_cases hid : id' = id
    · exact .inr ⟨_, List.mem_singleton_self _, hid ▸ hends⟩
    · obtain ⟨old, hold, hstatus⟩ := h
      exact .inl ⟨old, (hdone.states id' hid).trans hold, hstatus⟩
  · obtain ⟨new, hnew, hstatus⟩ := h
    by_cases hid : id' = id
    · subst hid
      rw [(hdone.state new hnew).1] at hstatus
      cases hstatus
    · exact ⟨new, (hdone.states id' hid).symm.trans hnew, hstatus⟩
  · by_cases hid : id' = id
    · right
      rw [hresolutions, if_pos hid]
      omega
    · exact .inl ⟨new, (hdone.states id' hid).symm.trans hnew, hstatus⟩
  · rw [hresolutions]
    exact Nat.le_add_right _ _
  · have hid : id' = id := by
      by_contra hne
      rw [hresolutions, if_neg hne] at hlt
      exact absurd hlt (lt_irrefl _)
    exact ⟨_, List.mem_singleton_self _, hid ▸ hends⟩
  · obtain rfl := List.mem_singleton.mp hevent
    rw [hresolutions, if_pos hid.1.symm]
    omega
  · obtain rfl := List.mem_singleton.mp hevent
    exact absurd hid.2 hends.2

/-- A command of such a call. -/
theorem resolve (resolution : Resolution) (stage : Stage) :
    Follows s (s.resolve resolution id group stage).1 (s.resolves resolution id group stage) := by
  unfold World.resolves
  obtain ⟨hclaimed, sensitive, remaining, state, count, hdone⟩ | ⟨hnot, hasked, hkeys, hanswered,
    hpruned, -⟩ := World.resolve_spec (s := s) resolution id group stage
  · rw [if_pos hclaimed, hdone]
    exact executed resolution
  · rw [if_neg hnot]
    exact .same (hasked ▸ List.Subset.refl _) (congrArg Keys.states hkeys) hanswered hpruned

theorem goOn {n : ℕ} {task : Task} {events : List Event} (h : Follows s s' events) :
    Follows s (s'.goOn n task) events :=
  ⟨h.asked, h.lost, h.gained, h.kept, h.counts, h.ends, h.ended, h.adds, h.one⟩

/-- Every step of the store. -/
theorem step (hinv : CountInv idleTtl s) (hstep : s.next idleTtl a = some s') :
    Follows s s' (s.events a) := by
  cases a with
  | add n request reserved =>
    simp only [World.next, Option.ite_none_right_eq_some, Option.some.injEq] at hstep
    obtain ⟨-, rfl⟩ := hstep
    exact .same (List.subset_cons_self _ _) rfl rfl rfl
  | reserveOpenSlot now limit request =>
    simp only [World.next, Option.ite_none_left_eq_some, Option.some.injEq] at hstep
    obtain ⟨-, rfl⟩ := hstep
    exact .same (List.Subset.refl _) (sameData_openReserve now limit request).states rfl rfl
  | resolve n resolution id group =>
    simp only [World.next, Option.ite_none_right_eq_some, Option.some.injEq] at hstep
    obtain ⟨-, rfl⟩ := hstep
    exact .same (List.Subset.refl _) rfl rfl rfl
  | backlog n now =>
    simp only [World.next, Option.ite_none_right_eq_some, Option.some.injEq] at hstep
    obtain ⟨-, rfl⟩ := hstep
    exact .same (List.Subset.refl _) rfl rfl rfl
  | crash n =>
    obtain rfl := Option.some.inj hstep
    exact .same (List.Subset.refl _) rfl rfl rfl
  | tick clock =>
    simp only [World.next, Option.ite_none_right_eq_some, Option.some.injEq] at hstep
    obtain ⟨-, rfl⟩ := hstep
    exact .same (List.Subset.refl _) rfl rfl rfl
  | step n now =>
    simp only [World.next, Option.ite_none_left_eq_some] at hstep
    obtain ⟨-, hstep⟩ := hstep
    unfold World.events
    split at hstep
    · cases hstep
    · cases hstep
    · next request reserved stage htask =>
      obtain rfl := Option.some.inj hstep
      simp only [htask]
      cases stage with
      | listing => exact .same (List.Subset.refl _) rfl rfl rfl
      | purging siblings =>
        exact .same (List.Subset.refl _) sameData_pendingPurge.states rfl rfl
      | committing siblings => exact added hinv htask
    · next resolver htask =>
      obtain rfl := Option.some.inj hstep
      simp only [htask]
      exact (resolve resolver.resolution resolver.stage).goOn
    · next now' htask =>
      obtain rfl := Option.some.inj hstep
      simp only [htask]
      exact .same (List.Subset.refl _) rfl rfl rfl
    · next now' groups found stage htask =>
      obtain rfl := Option.some.inj hstep
      simp only [htask]
      cases groups with
      | nil => cases stage <;> exact .same (List.Subset.refl _) rfl rfl rfl
      | cons group rest =>
        cases stage with
        | pruning overdue stage =>
          cases overdue with
          | nil => exact .same (List.Subset.refl _) rfl rfl rfl
          | cons request overdue => exact (resolve .prune stage).goOn
        | _ => exact .same (List.Subset.refl _) rfl rfl rfl

end Follows

/-! ## The events -/

/-- The events of the questions. -/
structure EventInv (s : World) (events : List Event) : Prop where
  /-- A question that is not pending any more has been resolved. -/
  answered : ∀ id state, s.keys.states id = some state → state.value.status = .answered →
    0 < s.resolutions id
  ended : ∀ id, 0 < s.resolutions id ↔ ∃ event ∈ events, event.Ends id
  /-- No event ends a question before the one that announces it. -/
  order : ∀ before event after id, events = before ++ event :: after → event.Adds id →
    ∀ earlier ∈ before, ¬earlier.Ends id

theorem EventInv.start : EventInv .start [] where
  answered _ _ h := by cases h
  ended id := by simp [World.resolutions, World.start]
  order before event after id heq := by simp at heq

/-- What every step of the store keeps of them. -/
theorem EventInv.follow {events new : List Event} (h : EventInv s events)
    (hfollows : Follows s s' new) : EventInv s' (events ++ new) where
  answered id state hstate hstatus := by
    obtain ⟨old, hold, hanswered⟩ | hpos := hfollows.kept id state hstate hstatus
    · exact (h.answered id old hold hanswered).trans_le (hfollows.counts id)
    · exact hpos
  ended id := by
    constructor
    · intro hpos
      obtain hlt | heq := (hfollows.counts id).lt_or_eq
      · obtain ⟨event, hevent, hends⟩ := hfollows.ends id hlt
        exact ⟨event, List.mem_append_right _ hevent, hends⟩
      · obtain ⟨event, hevent, hends⟩ := (h.ended id).mp (heq ▸ hpos)
        exact ⟨event, List.mem_append_left _ hevent, hends⟩
    · rintro ⟨event, hevent, hends⟩
      obtain hold | hnew := List.mem_append.mp hevent
      · exact ((h.ended id).mpr ⟨event, hold, hends⟩).trans_le (hfollows.counts id)
      · exact hfollows.ended event hnew id hends
  order before event after id heq hadds earlier hearlier hends := by
    have hlast : before = events → event ∈ new → False := by
      rintro rfl hnew
      have hzero := hfollows.adds event hnew id hadds
      have hpos := (h.ended id).mpr ⟨earlier, hearlier, hends⟩
      have hle := hfollows.counts id
      omega
    obtain ⟨rest, hbefore, hnew⟩ | ⟨rest, hevents, hnew⟩ := List.append_eq_append_iff.mp heq
    · have hone := hfollows.one
      rw [hnew, List.length_append, List.length_cons] at hone
      obtain rfl : rest = [] := List.length_eq_zero_iff.mp (by omega)
      exact hlast (by simpa using hbefore) (by simp [hnew])
    · cases rest with
      | nil =>
        rw [List.nil_append] at hnew
        exact hlast (by simpa using hevents.symm) (hnew ▸ List.mem_cons_self)
      | cons first rest =>
        obtain ⟨rfl, -⟩ := List.cons.inj hnew
        exact h.order before event rest id hevents hadds earlier hearlier hends

/-! ## The streams of the groups -/

/-- The groups that a reader of the backlog has found have their streams. -/
def GroupsOk (s : World) : Task → Prop
  | .backlog _ groups _ stage =>
    (∀ group ∈ groups, ∃ stream, s.keys.streams group = some stream) ∧
      stage ≠ .unlisting ∧ stage ≠ .undating
  | _ => True

structure StreamInv (s : World) : Prop where
  /-- A question is in the stream of its group. -/
  entered : ∀ id state, s.keys.states id = some state → ∃ stream,
    s.keys.streams state.value.request.groupId = some stream ∧
      state.value.request ∈ stream.value
  indexed : ∀ group score, s.keys.pending.score? group = some score →
    ∃ stream, s.keys.streams group = some stream
  tasks : ∀ n, GroupsOk s (s.tasks n)

/-- Streams go on, questions keep their requests, and what is indexed has a stream. -/
structure Keys.Streamed (k k' : Keys) : Prop where
  streams : ∀ group stream, k.streams group = some stream →
    ∃ stream', k'.streams group = some stream' ∧ stream.value ⊆ stream'.value
  states : ∀ id state, k'.states id = some state →
    (∃ old, k.states id = some old ∧ old.value.request = state.value.request) ∨
      ∃ stream, k'.streams state.value.request.groupId = some stream ∧
        state.value.request ∈ stream.value
  pending : ∀ group score, k'.pending.score? group = some score →
    (∃ score', k.pending.score? group = some score') ∨ ∃ stream, k'.streams group = some stream

theorem Keys.Streamed.same {k k' : Keys} (hstreams : k'.streams = k.streams)
    (hstates : k'.states = k.states) (hpending : ∀ group score,
      k'.pending.score? group = some score → ∃ score', k.pending.score? group = some score') :
    Streamed k k' where
  streams _ stream hstream := ⟨stream, hstreams ▸ hstream, List.Subset.refl _⟩
  states _ state hstate := .inl ⟨state, hstates ▸ hstate, rfl⟩
  pending group score hscore := .inl (hpending group score hscore)

theorem score?_of_rem {z : SortedSet GroupId} {dropped : GroupId} {score : ℤ}
    (h : (z.rem dropped).score? group = some score) : z.score? group = some score := by
  have hne : group ≠ dropped := by
    rintro rfl
    rw [SortedSet.score?_rem_self] at h
    cases h
  rwa [SortedSet.score?_rem_of_ne hne] at h

/-- The purge of an `add` puts no group into the index. -/
theorem score?_of_pendingPurge {k : Keys} {now score : Time} {current : GroupId}
    (h : (k.pendingPurge now current).pending.score? group = some score) :
    ∃ score', k.pending.score? group = some score' := by
  unfold pendingPurge at h
  generalize (k.pendingDeadline.rangeByScore 0 now).filter (· ≠ current) = expired at h
  induction expired generalizing k with
  | nil => exact ⟨score, h⟩
  | cons dropped expired ih =>
    obtain ⟨score', hscore'⟩ := ih h
    exact ⟨score', score?_of_rem hscore'⟩

namespace StreamInv

theorem start : StreamInv .start where
  entered _ _ h := by cases h
  indexed _ _ h := by cases h
  tasks _ := trivial

theorem readStream_ne_nil (h : ListInv idleTtl s) (hinv : CountInv idleTtl s)
    (hlive : s.live = true) {stream : Expiring (List InteractionRequest)}
    (hstream : s.keys.streams group = some stream) : s.readStream group = stream.value ∧
      stream.value ≠ [] := by
  have hne := h.nonempty group stream hstream
  refine ⟨?_, hne⟩
  obtain ⟨request, hrequest⟩ := List.exists_mem_of_ne_nil _ hne
  obtain ⟨hasked, rfl⟩ := hinv.streams group stream hstream request hrequest
  have hkeys := List.all_eq_true.mp hlive _ hasked
  simp only [Bool.and_eq_true, Option.all_eq_true, decide_eq_true_eq] at hkeys
  have hread := Expiring.read_eq_some.mpr ⟨stream, hstream, hkeys.1.2 stream hstream, rfl⟩
  rw [World.readStream, hread]
  rfl

theorem frame (h : StreamInv s) (hkeys : Streamed s.keys s'.keys)
    (htasks : ∀ n, GroupsOk s' (s'.tasks n)) : StreamInv s' where
  entered id state hstate := by
    obtain ⟨old, hold, hrequest⟩ | hentered := hkeys.states id state hstate
    · obtain ⟨stream, hstream, hmem⟩ := h.entered id old hold
      obtain ⟨stream', hstream', hsub⟩ := hkeys.streams _ stream hstream
      exact ⟨stream', hrequest ▸ hstream', hrequest ▸ hsub hmem⟩
    · exact hentered
  indexed group score hscore := by
    obtain ⟨score', hscore'⟩ | hstream := hkeys.pending group score hscore
    · obtain ⟨stream, hstream⟩ := h.indexed group score' hscore'
      obtain ⟨stream', hstream', -⟩ := hkeys.streams group stream hstream
      exact ⟨stream', hstream'⟩
    · exact hstream
  tasks := htasks

theorem groupsOk_mono {t : World} {task : Task} (h : GroupsOk s task)
    (hkeys : Streamed s.keys t.keys) :
    GroupsOk t task := by
  unfold GroupsOk at h ⊢
  split
  · next now groups found stage =>
    refine ⟨fun group hgroup => ?_, h.2⟩
    obtain ⟨stream, hstream⟩ := h.1 group hgroup
    obtain ⟨stream', hstream', -⟩ := hkeys.streams group stream hstream
    exact ⟨stream', hstream'⟩
  · trivial

theorem groupsOk_update {t : World} {n : ℕ} {task : Task} (htasks : ∀ m, GroupsOk s (t.tasks m))
    (htask : GroupsOk s task) (m : ℕ) : GroupsOk s (Function.update t.tasks n task m) := by
  by_cases hm : m = n
  · subst hm
    rwa [Function.update_self]
  · rw [Function.update_of_ne hm]
    exact htasks m

/-- The keys after a step. -/
theorem streamed (h : StreamInv s) (hinv : CountInv idleTtl s) (hlist : ListInv idleTtl s)
    (hlive : s.live = true) (hstep : s.next idleTtl a = some s') :
    Streamed s.keys s'.keys := by
  cases World.writes_of_next hstep with
  | none hkeys => exact hkeys ▸ .same rfl rfl fun _ _ h => ⟨_, h⟩
  | reserve hkeys htorn =>
    rename_i now limit request
    have hdata := sameData_openReserve (k := s.keys) now limit request
    rw [hkeys]
    refine .same hdata.streams hdata.states fun _ score hscore => ⟨score, ?_⟩
    unfold openReserve at hscore
    dsimp only at hscore
    split_ifs at hscore <;> exact hscore
  | purge _ hkeys =>
    exact hkeys ▸ .same sameData_pendingPurge.streams sameData_pendingPurge.states
      fun _ _ hscore => score?_of_pendingPurge hscore
  | unlist htask =>
    have hok := htask ▸ h.tasks _
    exact absurd rfl hok.2.1
  | undate htask =>
    have hok := htask ▸ h.tasks _
    exact absurd rfl hok.2.2
  | add htask hkeys hsame htorn =>
    rename_i n now request siblings reserved
    have hdone := added_addQuestion (k := s.keys) idleTtl s.clock now request siblings reserved
    rw [← hkeys] at hdone
    obtain ⟨response, hown⟩ := hdone.state
    have hentered : ∃ stream, s'.keys.streams request.groupId = some stream ∧
        request ∈ stream.value := ⟨_, hdone.stream, by simp⟩
    refine ⟨fun group stream hstream => ?_, fun id state hstate => ?_, fun group score hscore => ?_⟩
    · by_cases hgroup : group = request.groupId
      · subst hgroup
        refine ⟨_, hdone.stream, ?_⟩
        have hread := (readStream_ne_nil hlist hinv hlive hstream).1
        unfold World.readStream at hread
        rw [hread]
        exact List.subset_append_left _ _
      · exact ⟨stream, (hdone.streams group hgroup).trans hstream, List.Subset.refl _⟩
    · by_cases hid : id = request.interactionId
      · subst hid
        obtain rfl := Option.some.inj (hown.symm.trans hstate)
        exact .inr hentered
      · obtain hsame | ⟨-, value, hread, hnew⟩ := hdone.states id hid
        · exact .inl ⟨state, hsame.symm.trans hstate, rfl⟩
        · obtain ⟨old, hold, -, rfl⟩ := Expiring.read_eq_some.mp hread
          obtain rfl := Option.some.inj (hnew.symm.trans hstate)
          exact .inl ⟨old, hold, rfl⟩
    · by_cases hgroup : group = request.groupId
      · obtain ⟨stream, hstream, -⟩ := hentered
        exact .inr ⟨stream, hgroup ▸ hstream⟩
      · rw [hdone.pending, SortedSet.score?_add_of_ne hgroup] at hscore
        exact .inl ⟨score, hscore⟩
  | resolve htask hkeys hsame hasked htorn =>
    rename_i n now resolution id group stage
    obtain hnone | ⟨state, count, remaining, hstate, -, hdone⟩ := World.resolve_keys (s := s)
      resolution id group stage
    · exact hkeys.trans hnone ▸ .same rfl rfl fun _ _ h => ⟨_, h⟩
    · rw [← hkeys] at hdone
      refine ⟨fun group stream hstream => ⟨stream, hdone.streams ▸ hstream, List.Subset.refl _⟩,
        fun id' new hnew => .inl ?_, fun group' score hscore => .inl ⟨score, ?_⟩⟩
      · by_cases hid : id' = id
        · subst hid
          exact ⟨state, hstate, (hdone.state new hnew).2.symm⟩
        · exact ⟨new, (hdone.states id' hid).symm.trans hnew, rfl⟩
      · rw [hdone.pending] at hscore
        split_ifs at hscore
        · exact score?_of_rem hscore
        · exact hscore

theorem groupsOk_pruneNext {now : Time} {groups : List GroupId}
    {found overdue : List InteractionRequest}
    (h : ∀ group ∈ groups, ∃ stream, s.keys.streams group = some stream) :
    GroupsOk s (World.pruneNext now groups found overdue) := by
  cases overdue with
  | nil => exact ⟨fun group hgroup => h group (List.mem_of_mem_tail hgroup),
      fun heq => (by cases heq), fun heq => by cases heq⟩
  | cons request overdue =>
    exact ⟨h, fun heq => (by cases heq), fun heq => by cases heq⟩

theorem stepBacklog {n : ℕ} {now : Time} {groups : List GroupId} {found : List InteractionRequest}
    {stage : BacklogStage} (h : StreamInv s) (hinv : CountInv idleTtl s)
    (hlist : ListInv idleTtl s) (hlive : s.live = true)
    (htask : s.tasks n = .backlog now groups found stage)
    (hkeys : Streamed s.keys (s.stepBacklog n now groups found stage).keys) (m : ℕ) :
    GroupsOk (s.stepBacklog n now groups found stage)
      ((s.stepBacklog n now groups found stage).tasks m) := by
  have hok : GroupsOk s (.backlog now groups found stage) := htask ▸ h.tasks n
  have hold : ∀ m, GroupsOk (s.stepBacklog n now groups found stage) (s.tasks m) :=
    fun m => groupsOk_mono (h.tasks m) hkeys
  have hended : GroupsOk (s.stepBacklog n now groups found stage) .ended := trivial
  cases stage with
  | unlisting => exact absurd rfl hok.2.1
  | undating => exact absurd rfl hok.2.2
  | reading =>
    cases groups with
    | nil => exact groupsOk_update (t := s) hold hended m
    | cons group rest =>
      refine groupsOk_update (t := s) hold ?_ m
      obtain ⟨stream, hstream⟩ := hok.1 group List.mem_cons_self
      obtain ⟨hread, hne⟩ := readStream_ne_nil hlist hinv hlive hstream
      rw [if_neg (hread ▸ hne)]
      exact ⟨hok.1, fun heq => (by cases heq), fun heq => by cases heq⟩
  | inspecting entries => exact groupsOk_update (t := s) hold (groupsOk_pruneNext hok.1) m
  | pruning overdue stage =>
    cases groups with
    | nil => exact groupsOk_update (t := s) hold hended m
    | cons group rest =>
      cases overdue with
      | nil => exact groupsOk_update (t := s) hold hended m
      | cons request overdue =>
        have hgroups := (groupsOk_mono (t := s.stepBacklog n now (group :: rest) found
          (.pruning (request :: overdue) stage)) hok hkeys).1
        refine groupsOk_update (fun m => ?_) ?_ m
        · rw [World.resolve_tasks]
          exact hold m
        · split
          · exact ⟨hgroups, fun heq => (by cases heq), fun heq => by cases heq⟩
          · exact groupsOk_pruneNext hgroups
          · trivial

/-- What every step keeps. -/
theorem step (h : StreamInv s) (hinv : CountInv idleTtl s) (hlist : ListInv idleTtl s)
    (hlive : s.live = true) (hstep : s.next idleTtl a = some s') : StreamInv s' := by
  have hkeys := h.streamed hinv hlist hlive hstep
  refine h.frame hkeys ?_
  have hold : ∀ m, GroupsOk s' (s.tasks m) := fun m => groupsOk_mono (h.tasks m) hkeys
  cases a with
  | reserveOpenSlot now limit request =>
    simp only [World.next, Option.ite_none_left_eq_some, Option.some.injEq] at hstep
    obtain ⟨-, rfl⟩ := hstep
    exact hold
  | crash n =>
    obtain rfl := Option.some.inj hstep
    exact groupsOk_update (t := s) hold trivial
  | tick clock =>
    simp only [World.next, Option.ite_none_right_eq_some, Option.some.injEq] at hstep
    obtain ⟨-, rfl⟩ := hstep
    exact hold
  | step n now =>
    simp only [World.next, Option.ite_none_left_eq_some] at hstep
    obtain ⟨-, hstep⟩ := hstep
    split at hstep
    · cases hstep
    · cases hstep
    · next request reserved stage htask =>
      obtain rfl := Option.some.inj hstep
      cases stage <;> exact groupsOk_update (t := s) hold trivial
    · next resolver htask =>
      obtain rfl := Option.some.inj hstep
      refine groupsOk_update (fun m => ?_) (by split <;> trivial)
      rw [World.resolve_tasks]
      exact hold m
    · next now' htask =>
      obtain rfl := Option.some.inj hstep
      refine groupsOk_update (t := s) hold ⟨fun group hgroup => ?_, ?_, ?_⟩
      · obtain ⟨score, hscore⟩ := SortedSet.mem_range.mp hgroup
        exact h.indexed group score hscore
      · exact fun heq => by cases heq
      · exact fun heq => by cases heq
    · next now' groups found stage htask =>
      obtain rfl := Option.some.inj hstep
      exact h.stepBacklog hinv hlist hlive htask hkeys
  | _ =>
    simp only [World.next, Option.ite_none_right_eq_some, Option.some.injEq] at hstep
    obtain ⟨-, rfl⟩ := hstep
    exact groupsOk_update (t := s) hold trivial

end StreamInv

end TaiSkeleton.Interactions
