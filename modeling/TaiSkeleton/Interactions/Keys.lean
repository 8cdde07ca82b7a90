import TaiSkeleton.Interactions.Store

/-!
# What the commands of the store leave

Of each `MULTI` block and script: which keys it writes, as a `WATCH` sees it, and what the others
still hold.
-/

namespace TaiSkeleton.Interactions

open Lib

variable {idleTtl : Time} {s : World} {k k' k'' : Keys} {id : InteractionId} {group : GroupId}

/-! ## The writes of a command -/

/-- What `WATCH` relies on: a key that has not been written holds what it held. -/
structure Keys.Grows (k k' : Keys) : Prop where
  stateWrites : ∀ id, k.stateWrites id ≤ k'.stateWrites id
  states : ∀ id, k'.stateWrites id = k.stateWrites id → k'.states id = k.states id
  countWrites : ∀ group, k.countWrites group ≤ k'.countWrites group
  counts : ∀ group, k'.countWrites group = k.countWrites group → k'.counts group = k.counts group

/-- The commands on the indexes leave the questions and the counts. -/
structure Keys.SameData (k k' : Keys) : Prop where
  streams : k'.streams = k.streams
  states : k'.states = k.states
  counts : k'.counts = k.counts
  replies : k'.replies = k.replies
  stateWrites : k'.stateWrites = k.stateWrites
  countWrites : k'.countWrites = k.countWrites

namespace Keys

theorem SameData.refl (k : Keys) : SameData k k := ⟨rfl, rfl, rfl, rfl, rfl, rfl⟩

theorem SameData.trans (h : SameData k k') (h' : SameData k' k'') : SameData k k'' :=
  ⟨h'.streams.trans h.streams, h'.states.trans h.states, h'.counts.trans h.counts,
    h'.replies.trans h.replies, h'.stateWrites.trans h.stateWrites,
    h'.countWrites.trans h.countWrites⟩

theorem sameData_pendingPurge {now : Time} : SameData k (k.pendingPurge now group) := by
  unfold pendingPurge
  generalize (k.pendingDeadline.rangeByScore 0 now).filter (· ≠ group) = expired
  induction expired generalizing k with
  | nil => exact .refl k
  | cons g expired ih =>
    have hdrop : SameData k ((k.dropPending g).dropDeadline g) := ⟨rfl, rfl, rfl, rfl, rfl, rfl⟩
    exact hdrop.trans ih

theorem sameData_openReserve (now : Time) (limit : ℕ) (request : InteractionRequest) :
    SameData k (k.openReserve now limit request).1 := by
  unfold openReserve
  dsimp only
  split_ifs <;> exact ⟨rfl, rfl, rfl, rfl, rfl, rfl⟩

theorem Grows.refl (k : Keys) : Grows k k :=
  ⟨fun _ => le_refl _, fun _ _ => rfl, fun _ => le_refl _, fun _ _ => rfl⟩

theorem Grows.trans (h : Grows k k') (h' : Grows k' k'') : Grows k k'' := by
  refine ⟨fun id => (h.stateWrites id).trans (h'.stateWrites id), fun id heq => ?_,
    fun group => (h.countWrites group).trans (h'.countWrites group), fun group heq => ?_⟩
  · have hle := h.stateWrites id
    have hle' := h'.stateWrites id
    rw [h'.states id (by omega), h.states id (by omega)]
  · have hle := h.countWrites group
    have hle' := h'.countWrites group
    rw [h'.counts group (by omega), h.counts group (by omega)]

theorem SameData.grows (h : SameData k k') : Grows k k' :=
  ⟨fun id => by rw [h.stateWrites], fun id _ => by rw [h.states],
    fun group => by rw [h.countWrites], fun group _ => by rw [h.counts]⟩

theorem grows_setState {state : Option (Expiring InteractionState)} :
    Grows k (k.setState id state) := by
  refine ⟨fun id' => ?_, fun id' heq => ?_, fun _ => le_refl _, fun _ _ => rfl⟩
  · show _ ≤ Function.update k.stateWrites id _ id'
    rw [Function.update_apply]
    split_ifs with hid
    · rw [hid]
      omega
    · exact le_refl _
  · change Function.update k.stateWrites id _ id' = _ at heq
    have hne : id' ≠ id := by
      rintro rfl
      rw [Function.update_self] at heq
      omega
    exact Function.update_of_ne hne _ _

theorem grows_setCount {count : Option (Expiring ℤ)} : Grows k (k.setCount group count) := by
  refine ⟨fun _ => le_refl _, fun _ _ => rfl, fun group' => ?_, fun group' heq => ?_⟩
  · show _ ≤ Function.update k.countWrites group _ group'
    rw [Function.update_apply]
    split_ifs with hgroup
    · rw [hgroup]
      omega
    · exact le_refl _
  · change Function.update k.countWrites group _ group' = _ at heq
    have hne : group' ≠ group := by
      rintro rfl
      rw [Function.update_self] at heq
      omega
    exact Function.update_of_ne hne _ _

/-- What the refresh of the siblings leaves. -/
structure Refreshed (clock expiresAt : Time) (siblings : List InteractionId) (k k' : Keys) : Prop
    where
  grows : Grows k k'
  streams : k'.streams = k.streams
  counts : k'.counts = k.counts
  pending : k'.pending = k.pending
  pendingDeadline : k'.pendingDeadline = k.pendingDeadline
  replies : k'.replies = k.replies
  states : ∀ id, k'.states id = k.states id ∨ id ∈ siblings ∧
    ∃ state, Expiring.read clock (k.states id) = some state ∧
      k'.states id = some ⟨state, expiresAt⟩

theorem refreshed_refreshState {clock expiresAt : Time} :
    Refreshed clock expiresAt [id] k (refreshState clock expiresAt k id) := by
  unfold refreshState
  split
  · exact ⟨.refl k, rfl, rfl, rfl, rfl, rfl, fun _ => .inl rfl⟩
  · rename_i state hread
    refine ⟨grows_setState, rfl, rfl, rfl, rfl, rfl, fun id' => ?_⟩
    by_cases hid : id' = id
    · subst hid
      exact .inr ⟨List.mem_cons_self, state, hread, Function.update_self _ _ _⟩
    · exact .inl (Function.update_of_ne hid _ _)

theorem refreshed_foldl {clock expiresAt : Time} {siblings : List InteractionId} :
    Refreshed clock expiresAt siblings k (siblings.foldl (refreshState clock expiresAt) k) := by
  induction siblings generalizing k with
  | nil => exact ⟨.refl k, rfl, rfl, rfl, rfl, rfl, fun _ => .inl rfl⟩
  | cons sibling siblings ih =>
    have hfirst : Refreshed clock expiresAt [sibling] k (refreshState clock expiresAt k sibling) :=
      refreshed_refreshState
    have hrest := ih (k := refreshState clock expiresAt k sibling)
    rw [List.foldl_cons]
    refine ⟨hfirst.grows.trans hrest.grows, hrest.streams.trans hfirst.streams,
      hrest.counts.trans hfirst.counts, hrest.pending.trans hfirst.pending,
      hrest.pendingDeadline.trans hfirst.pendingDeadline, hrest.replies.trans hfirst.replies,
      fun id => ?_⟩
    obtain hsame | ⟨hmem, state, hread, hnew⟩ := hrest.states id
    · obtain hsame' | ⟨hmem, state, hread, hnew⟩ := hfirst.states id
      · exact .inl (hsame.trans hsame')
      · rw [List.mem_singleton] at hmem
        exact .inr ⟨hmem ▸ List.mem_cons_self, state, hread, hsame.trans hnew⟩
    · refine .inr ⟨List.mem_cons_of_mem _ hmem, state, ?_, hnew⟩
      obtain hsame' | ⟨-, state', hread', hnew'⟩ := hfirst.states id
      · rwa [hsame'] at hread
      · -- refreshed already: the value is the same
        obtain ⟨entry, hentry, -, rfl⟩ := Expiring.read_eq_some.mp hread
        rw [hnew'] at hentry
        obtain rfl := Option.some.inj hentry
        exact hread'

/-- What the `MULTI` of `add` leaves. -/
structure Added (clock expiresAt : Time) (request : InteractionRequest)
    (siblings : List InteractionId) (k k' : Keys) : Prop where
  grows : Grows k k'
  stream : k'.streams request.groupId =
    some ⟨(Expiring.read clock (k.streams request.groupId)).getD [] ++ [request], expiresAt⟩
  streams : ∀ group, group ≠ request.groupId → k'.streams group = k.streams group
  count : k'.counts request.groupId =
    some ⟨(Expiring.read clock (k.counts request.groupId)).getD 0 + 1, expiresAt⟩
  counts : ∀ group, group ≠ request.groupId → k'.counts group = k.counts group
  state : ∃ response, k'.states request.interactionId =
    some ⟨⟨.pending, request, response⟩, expiresAt⟩
  states : ∀ id, id ≠ request.interactionId → k'.states id = k.states id ∨ id ∈ siblings ∧
    ∃ state, Expiring.read clock (k.states id) = some state ∧
      k'.states id = some ⟨state, expiresAt⟩
  replies : k'.replies = k.replies
  pending : k'.pending = k.pending.add request.groupId request.createdAt
  pendingDeadline : k'.pendingDeadline =
    k.pendingDeadline.addGT request.groupId request.timeoutAt

theorem added_addQuestion (idleTtl clock now : Time) (request : InteractionRequest)
    (siblings : List InteractionId) (openMemberReserved : Bool) :
    Added clock (clock + idleTtl) request siblings k
      (k.addQuestion idleTtl clock now request siblings openMemberReserved) := by
  unfold addQuestion
  dsimp only
  generalize hadded : ({ k with openIndex := _, streams := _, pending := _, pendingDeadline := _ } :
    Keys) = added
  generalize hset : added.setState request.interactionId _ = set
  have hfold : Refreshed clock (clock + idleTtl) siblings set
      (siblings.foldl (refreshState clock (clock + idleTtl)) set) := refreshed_foldl
  subst hset hadded
  refine ⟨?_, ?_, ?_, ?_, ?_, ?_, ?_, hfold.replies, hfold.pending, hfold.pendingDeadline⟩
  · refine (Grows.trans ?_ (grows_setState.trans hfold.grows)).trans grows_setCount
    exact ⟨fun _ => le_refl _, fun _ _ => rfl, fun _ => le_refl _, fun _ _ => rfl⟩
  · exact (congrFun hfold.streams _).trans (Function.update_self _ _ _)
  · intro group hne
    exact (congrFun hfold.streams _).trans (Function.update_of_ne hne _ _)
  · exact Function.update_self _ _ _
  · intro group hne
    exact (Function.update_of_ne hne _ _).trans (congrFun hfold.counts _)
  · refine ⟨(Expiring.read clock (k.states request.interactionId)).bind InteractionState.response,
      ?_⟩
    have hself : ∀ state, Function.update k.states request.interactionId state
        request.interactionId = state := fun state => Function.update_self _ _ _
    obtain hsame | ⟨-, state, hread, hnew⟩ := hfold.states request.interactionId
    · exact hsame.trans (hself _)
    · refine hnew.trans ?_
      obtain ⟨entry, hentry, -, rfl⟩ := Expiring.read_eq_some.mp hread
      obtain rfl := Option.some.inj ((hself _).symm.trans hentry)
      rfl
  · intro id hne
    have hother : ∀ state, Function.update k.states request.interactionId state id =
        k.states id := fun state => Function.update_of_ne hne _ _
    obtain hsame | ⟨hmem, state, hread, hnew⟩ := hfold.states id
    · exact .inl (hsame.trans (hother _))
    · refine .inr ⟨hmem, state, ?_, hnew⟩
      rw [← hread]
      exact congrArg (Expiring.read clock) (hother _).symm

/-- What the `MULTI` of a call that resolves a question leaves. -/
structure Resolved (id : InteractionId) (group : GroupId) (state : Expiring InteractionState)
    (count : Expiring ℤ) (remaining : ℤ) (k k' : Keys) : Prop where
  grows : Grows k k'
  streams : k'.streams = k.streams
  state : ∀ new, k'.states id = some new →
    new.value.status = .answered ∧ new.value.request = state.value.request
  states : ∀ id', id' ≠ id → k'.states id' = k.states id'
  count : k'.counts group =
    if remaining ≤ 0 then none else some { count with value := count.value - 1 }
  counts : ∀ group', group' ≠ group → k'.counts group' = k.counts group'
  pending : k'.pending = if remaining ≤ 0 then k.pending.rem group else k.pending
  pendingDeadline : k'.pendingDeadline =
    if remaining ≤ 0 then k.pendingDeadline.rem group else k.pendingDeadline

/-- The count's part of it. -/
theorem resolved_countDown {state : Expiring InteractionState} {count : Expiring ℤ}
    {remaining : ℤ} (k' : Keys) (hgrows : Grows k k') (hstreams : k'.streams = k.streams)
    (hcounts : k'.counts = k.counts) (hpending : k'.pending = k.pending)
    (hdeadline : k'.pendingDeadline = k.pendingDeadline)
    (hstate : ∀ new, k'.states id = some new →
      new.value.status = .answered ∧ new.value.request = state.value.request)
    (hstates : ∀ id', id' ≠ id → k'.states id' = k.states id') :
    Resolved id group state count remaining k (k'.countDown group count remaining) := by
  unfold countDown
  split_ifs with hzero
  · refine ⟨(hgrows.trans ?_).trans grows_setCount, hstreams, hstate, hstates, ?_, ?_, ?_, ?_⟩
    · exact SameData.grows ⟨rfl, rfl, rfl, rfl, rfl, rfl⟩
    · rw [if_pos hzero]
      exact Function.update_self _ _ _
    · exact fun group' hne => (Function.update_of_ne hne _ _).trans (congrFun hcounts _)
    · rw [if_pos hzero, ← hpending]
      rfl
    · rw [if_pos hzero, ← hdeadline]
      rfl
  · refine ⟨hgrows.trans grows_setCount, hstreams, hstate, hstates, ?_, ?_, ?_, ?_⟩
    · rw [if_neg hzero]
      exact Function.update_self _ _ _
    · exact fun group' hne => (Function.update_of_ne hne _ _).trans (congrFun hcounts _)
    · rw [if_neg hzero]
      exact hpending
    · rw [if_neg hzero]
      exact hdeadline

end Keys

open Keys

theorem resolved_execute (resolution : Resolution) (id : InteractionId) (group : GroupId)
    (sensitive : Bool) (remaining : ℤ) (state : Expiring InteractionState) (count : Expiring ℤ) :
    Resolved id group state count remaining s.keys
      (s.execute resolution id group sensitive remaining state count).keys := by
  cases resolution with
  | answer response ticketTtl =>
    refine resolved_countDown { s.keys.setState id _ with openIndex := _, replies := _ }
      (grows_setState.trans
        ⟨fun _ => le_refl _, fun _ _ => rfl, fun _ => le_refl _, fun _ _ => rfl⟩)
      rfl rfl rfl rfl (fun new hnew => ?_) (fun id' hne => Function.update_of_ne hne _ _)
    change Function.update s.keys.states id _ id = some new at hnew
    rw [Function.update_self] at hnew
    obtain rfl := Option.some.inj hnew
    exact ⟨rfl, rfl⟩
  | prune =>
    refine resolved_countDown { s.keys.setState id none with openIndex := _ }
      (grows_setState.trans (SameData.grows ⟨rfl, rfl, rfl, rfl, rfl, rfl⟩)) rfl rfl rfl rfl
      (fun new hnew => ?_) (fun id' hne => Function.update_of_ne hne _ _)
    change Function.update s.keys.states id _ id = some new at hnew
    rw [Function.update_self] at hnew
    cases hnew

/-! ## The writes of a step -/

/-- The call that the task is at, where it resolves a question. -/
def Task.resolves : Task → Option (Resolution × InteractionId × GroupId × Stage)
  | .resolving resolver =>
    some (resolver.resolution, resolver.id, resolver.group, resolver.stage)
  | .backlog _ (group :: _) _ (.pruning (request :: _) stage) =>
    some (.prune, request.interactionId, group, stage)
  | _ => none

/-- What a step does to the keys. -/
inductive Writes (idleTtl : Time) (s s' : World) : Label → Prop where
  | none {a : Label} (keys : s'.keys = s.keys) (torn : s'.torn = s.torn) : Writes idleTtl s s' a
  | reserve {now : Time} {limit : ℕ} {request : InteractionRequest}
      (keys : s'.keys = (s.keys.openReserve now limit request).1) (torn : s'.torn = s.torn) :
      Writes idleTtl s s' (.reserveOpenSlot now limit request)
  | purge {n : ℕ} {now : Time} {group : GroupId} (read : now ≤ s.clock)
      (keys : s'.keys = s.keys.pendingPurge now group) (clock : s'.clock = s.clock)
      (torn : s'.torn = s.torn) : Writes idleTtl s s' (.step n now)
  | add {n : ℕ} {now : Time} {request : InteractionRequest} {siblings : List InteractionId}
      {reserved : Bool} (task : s.tasks n = .adding request reserved (.committing siblings))
      (keys : s'.keys = s.keys.addQuestion idleTtl s.clock now request siblings reserved)
      (clock : s'.clock = s.clock) (torn : s'.torn = s.torn) : Writes idleTtl s s' (.step n now)
  | unlist {n : ℕ} {now now' : Time} {group : GroupId} {rest : List GroupId}
      {found : List InteractionRequest}
      (task : s.tasks n = .backlog now' (group :: rest) found .unlisting)
      (keys : s'.keys = s.keys.dropPending group) (clock : s'.clock = s.clock)
      (torn : s'.torn = s.torn) : Writes idleTtl s s' (.step n now)
  | undate {n : ℕ} {now now' : Time} {group : GroupId} {rest : List GroupId}
      {found : List InteractionRequest}
      (task : s.tasks n = .backlog now' (group :: rest) found .undating)
      (keys : s'.keys = s.keys.dropDeadline group) (clock : s'.clock = s.clock)
      (torn : s'.torn = s.torn) : Writes idleTtl s s' (.step n now)
  | resolve {n : ℕ} {now : Time} {resolution : Resolution} {id : InteractionId} {group : GroupId}
      {stage : Stage} (task : (s.tasks n).resolves = some (resolution, id, group, stage))
      (keys : s'.keys = (s.resolve resolution id group stage).1.keys) (clock : s'.clock = s.clock)
      (asked : s'.asked = s.asked) (torn : s'.torn = (s.resolve resolution id group stage).1.torn) :
      Writes idleTtl s s' (.step n now)

/-- A call on a question writes nothing, or resolves it. -/
theorem World.resolve_keys (resolution : Resolution) (id : InteractionId) (group : GroupId)
    (stage : Stage) :
    (s.resolve resolution id group stage).1.keys = s.keys ∨
      ∃ state count remaining, s.keys.states id = some state ∧ s.keys.counts group = some count ∧
        Resolved id group state count remaining s.keys
          (s.resolve resolution id group stage).1.keys := by
  cases stage with
  | readingCount watch sensitive =>
    refine .inl ?_
    simp only [resolve]
    split <;> rfl
  | readingStatus watch =>
    refine .inl ?_
    simp only [resolve]
    split
    · rfl
    · split_ifs
      · rfl
      · cases resolution <;> rfl
  | executing watch sensitive remaining =>
    simp only [resolve]
    split
    · rename_i state count hstate hcount
      split_ifs
      · exact .inr ⟨state, count, remaining, hstate, hcount, resolved_execute _ _ _ _ _ _ _⟩
      · exact .inl rfl
    · exact .inl rfl
  | _ => exact .inl rfl

theorem World.resolve_frame (resolution : Resolution) (id : InteractionId) (group : GroupId)
    (stage : Stage) :
    (s.resolve resolution id group stage).1.clock = s.clock ∧
      (s.resolve resolution id group stage).1.asked = s.asked := by
  cases stage with
  | readingCount watch sensitive =>
    simp only [resolve]
    split <;> exact ⟨rfl, rfl⟩
  | readingStatus watch =>
    simp only [resolve]
    split
    · exact ⟨rfl, rfl⟩
    · split_ifs
      · exact ⟨rfl, rfl⟩
      · cases resolution <;> exact ⟨rfl, rfl⟩
  | executing watch sensitive remaining =>
    simp only [resolve]
    split
    · split_ifs
      · cases resolution <;> exact ⟨rfl, rfl⟩
      · exact ⟨rfl, rfl⟩
    · exact ⟨rfl, rfl⟩
  | _ => exact ⟨rfl, rfl⟩

theorem World.writes_of_next {s' : World} {a : Label} (hstep : s.next idleTtl a = some s') :
    Writes idleTtl s s' a := by
  cases a with
  | step n now =>
    simp only [World.next, Option.ite_none_left_eq_some, not_lt] at hstep
    obtain ⟨hread, hstep⟩ := hstep
    split at hstep
    · cases hstep
    · cases hstep
    · rename_i request reserved stage htask
      obtain rfl := Option.some.inj hstep
      cases stage with
      | listing => exact .none rfl rfl
      | purging siblings => exact .purge hread rfl rfl rfl
      | committing siblings => exact .add htask rfl rfl rfl
    · rename_i resolver htask
      obtain rfl := Option.some.inj hstep
      obtain ⟨hclock, hasked⟩ := resolve_frame (s := s) resolver.resolution resolver.id
        resolver.group resolver.stage
      exact .resolve (by rw [htask]; rfl) rfl hclock hasked rfl
    · obtain rfl := Option.some.inj hstep
      exact .none rfl rfl
    · rename_i now' groups found stage htask
      obtain rfl := Option.some.inj hstep
      cases groups with
      | nil => cases stage <;> exact .none rfl rfl
      | cons group rest =>
        cases stage with
        | unlisting => exact .unlist htask rfl rfl rfl
        | undating => exact .undate htask rfl rfl rfl
        | pruning overdue stage =>
          cases overdue with
          | nil => exact .none rfl rfl
          | cons request overdue =>
            obtain ⟨hclock, hasked⟩ := resolve_frame (s := s) .prune request.interactionId
              group stage
            exact .resolve (by rw [htask]; rfl) rfl hclock hasked rfl
        | _ => exact .none rfl rfl
  | reserveOpenSlot now limit request =>
    simp only [World.next, Option.ite_none_left_eq_some, Option.some.injEq] at hstep
    obtain ⟨-, rfl⟩ := hstep
    exact .reserve rfl rfl
  | crash n =>
    obtain rfl := Option.some.inj hstep
    exact .none rfl rfl
  | _ =>
    simp only [World.next, Option.ite_none_right_eq_some, Option.some.injEq] at hstep
    obtain ⟨-, rfl⟩ := hstep
    exact .none rfl rfl

/-- The clock does not go back. -/
theorem World.clock_le_next {s' : World} {a : Label} (hstep : s.next idleTtl a = some s') :
    s.clock ≤ s'.clock := by
  cases a with
  | tick clock =>
    simp only [World.next, Option.ite_none_right_eq_some, Option.some.injEq] at hstep
    obtain ⟨hle, rfl⟩ := hstep
    exact hle
  | step n now =>
    simp only [World.next, Option.ite_none_left_eq_some] at hstep
    obtain ⟨-, hstep⟩ := hstep
    refine le_of_eq (Eq.symm ?_)
    split at hstep
    · cases hstep
    · cases hstep
    · rename_i request reserved stage htask
      obtain rfl := Option.some.inj hstep
      cases stage <;> rfl
    · obtain rfl := Option.some.inj hstep
      exact (resolve_frame _ _ _ _).1
    · obtain rfl := Option.some.inj hstep
      rfl
    · rename_i now' groups found stage htask
      obtain rfl := Option.some.inj hstep
      cases groups with
      | nil => cases stage <;> rfl
      | cons group rest =>
        cases stage with
        | pruning overdue stage =>
          cases overdue with
          | nil => rfl
          | cons request overdue => exact (resolve_frame _ _ _ _).1
        | _ => rfl
  | reserveOpenSlot now limit request =>
    simp only [World.next, Option.ite_none_left_eq_some, Option.some.injEq] at hstep
    obtain ⟨-, rfl⟩ := hstep
    exact le_refl _
  | crash n =>
    obtain rfl := Option.some.inj hstep
    exact le_refl _
  | _ =>
    simp only [World.next, Option.ite_none_right_eq_some, Option.some.injEq] at hstep
    obtain ⟨-, rfl⟩ := hstep
    exact le_refl _

end TaiSkeleton.Interactions
