import TaiSkeleton.Interactions.Counts

/-!
# What is stored of a question

From the `add` of a question to the call that resolves it the store holds its state, counts it in
its group and keeps it in the open index. Every command keeps this: it stores or resolves one
question at most, and the count of a group is at most that of its unresolved questions.
-/

namespace TaiSkeleton.Interactions

open Lib

/-! ## What a command of the store does -/

/-- The question that a command adds to the store. -/
def World.stores (s : World) : Label → List InteractionRequest
  | .step n _ =>
    match s.tasks n with
    | .adding request _ (.committing _) => [request]
    | _ => []
  | _ => []

/-- What a command does to what a question leaves in the store. -/
inductive Effect (idleTtl : Time) (s s' : World) : Label → Prop where
  | quiet {a : Label} (states : s'.keys.states = s.keys.states)
      (counts : s'.keys.counts = s.keys.counts) (openIndex : s'.keys.openIndex = s.keys.openIndex)
      (resolutions : s'.resolutions = s.resolutions) (stores : s.stores a = []) :
      Effect idleTtl s s' a
  | reserve {now : Time} {limit : ℕ} {request : InteractionRequest}
      (world : s' = { s with keys := (s.keys.openReserve now limit request).1 }) :
      Effect idleTtl s s' (.reserveOpenSlot now limit request)
  | add {n : ℕ} {now : Time} {request : InteractionRequest} {siblings : List InteractionId}
      {reserved : Bool} (task : s.tasks n = .adding request reserved (.committing siblings))
      (keys : s'.keys = s.keys.addQuestion idleTtl s.clock now request siblings reserved)
      (resolutions : s'.resolutions = s.resolutions) : Effect idleTtl s s' (.step n now)
  | resolve {n : ℕ} {now : Time} {resolution : Resolution} {id : InteractionId} {group : GroupId}
      {sensitive : Bool} {remaining : ℤ} {state : Expiring InteractionState} {count : Expiring ℤ}
      (task : ∃ stage, (s.tasks n).resolves = some (resolution, id, group, stage))
      (hstate : s.keys.states id = some state) (hcount : s.keys.counts group = some count)
      (keys : s'.keys =
        (s.execute resolution id group sensitive remaining state count).keys)
      (answered : s'.answered =
        (s.execute resolution id group sensitive remaining state count).answered)
      (pruned : s'.pruned =
        (s.execute resolution id group sensitive remaining state count).pruned)
      (stores : s.stores (.step n now) = []) : Effect idleTtl s s' (.step n now)

section

variable {idleTtl : Time} {s s' : World} {id : InteractionId} {group : GroupId}

/-- A call on a question leaves everything, or resolves it. -/
theorem World.resolve_cases (s : World) (resolution : Resolution) (id : InteractionId)
    (group : GroupId) (stage : Stage) :
    ((s.resolve resolution id group stage).1.keys = s.keys ∧
      (s.resolve resolution id group stage).1.answered = s.answered ∧
      (s.resolve resolution id group stage).1.pruned = s.pruned ∧
      (s.resolve resolution id group stage).2 ≠ .returned true) ∨
    ∃ sensitive remaining state count, s.keys.states id = some state ∧
      s.keys.counts group = some count ∧ s.resolve resolution id group stage =
        (s.execute resolution id group sensitive remaining state count, .returned true) := by
  cases stage with
  | readingCount watch sensitive =>
    refine .inl ?_
    simp only [resolve]
    split <;> exact ⟨rfl, rfl, rfl, by rintro ⟨⟩⟩
  | readingStatus watch =>
    refine .inl ?_
    simp only [resolve]
    split
    · exact ⟨rfl, rfl, rfl, by rintro ⟨⟩⟩
    · split_ifs
      · exact ⟨rfl, rfl, rfl, by rintro ⟨⟩⟩
      · cases resolution <;> exact ⟨rfl, rfl, rfl, by rintro ⟨⟩⟩
  | executing watch sensitive remaining =>
    simp only [resolve]
    split
    · rename_i state count hstate hcount
      split_ifs
      · exact .inr ⟨sensitive, remaining, state, count, hstate, hcount, rfl⟩
      · exact .inl ⟨rfl, rfl, rfl, by rintro ⟨⟩⟩
    · exact .inl ⟨rfl, rfl, rfl, by rintro ⟨⟩⟩
  | _ => exact .inl ⟨rfl, rfl, rfl, by rintro ⟨⟩⟩

/-- A step that is a command of a call on a question. -/
theorem Effect.of_resolve {n : ℕ} {now : Time} {resolution : Resolution} {stage : Stage}
    (task : (s.tasks n).resolves = some (resolution, id, group, stage))
    (keys : s'.keys = (s.resolve resolution id group stage).1.keys)
    (answered : s'.answered = (s.resolve resolution id group stage).1.answered)
    (pruned : s'.pruned = (s.resolve resolution id group stage).1.pruned) :
    Effect idleTtl s s' (.step n now) := by
  have hstores : s.stores (.step n now) = [] := by
    unfold World.stores
    dsimp only
    split
    · next htask =>
      rw [htask] at task
      cases task
    · rfl
  obtain ⟨hkeys, hanswered, hpruned, -⟩ | ⟨sensitive, remaining, state, count, hstate, hcount,
    hdone⟩ := s.resolve_cases resolution id group stage
  · rw [hkeys] at keys
    refine .quiet (keys ▸ rfl) (keys ▸ rfl) (keys ▸ rfl) ?_ hstores
    unfold World.resolutions
    rw [answered, hanswered, pruned, hpruned]
  · rw [hdone] at keys answered pruned
    exact .resolve ⟨stage, task⟩ hstate hcount keys answered pruned hstores

theorem Keys.openIndex_pendingPurge (k : Keys) (now : Time) (group : GroupId) :
    (k.pendingPurge now group).openIndex = k.openIndex := by
  unfold pendingPurge
  generalize (k.pendingDeadline.rangeByScore 0 now).filter (· ≠ group) = expired
  induction expired generalizing k with
  | nil => rfl
  | cons g expired ih => exact ih _

/-- A step of `backlog` writes nothing of a question, or prunes one. -/
theorem effect_stepBacklog {n : ℕ} {now now' : Time} {groups : List GroupId}
    {found : List InteractionRequest} {stage : BacklogStage}
    (htask : s.tasks n = .backlog now' groups found stage) :
    Effect idleTtl s (s.stepBacklog n now' groups found stage) (.step n now) := by
  have hstores : s.stores (.step n now) = [] := by
    unfold World.stores
    dsimp only
    rw [htask]
  cases groups with
  | nil => cases stage <;> exact .quiet rfl rfl rfl rfl hstores
  | cons group rest =>
    cases stage with
    | pruning overdue stage =>
      cases overdue with
      | nil => exact .quiet rfl rfl rfl rfl hstores
      | cons request overdue =>
        have hresolves : (s.tasks n).resolves =
            some (.prune, request.interactionId, group, stage) := by
          rw [htask]
          rfl
        exact .of_resolve hresolves rfl rfl rfl
    | _ => exact .quiet rfl rfl rfl rfl hstores

theorem World.effect_of_next {a : Label} (hstep : s.next idleTtl a = some s') :
    Effect idleTtl s s' a := by
  cases a with
  | step n now =>
    simp only [World.next, Option.ite_none_left_eq_some, not_lt] at hstep
    obtain ⟨-, hstep⟩ := hstep
    split at hstep
    · cases hstep
    · cases hstep
    · rename_i request reserved stage htask
      obtain rfl := Option.some.inj hstep
      cases stage with
      | listing =>
        refine .quiet rfl rfl rfl rfl ?_
        unfold World.stores
        dsimp only
        rw [htask]
      | purging siblings =>
        have hdata : Keys.SameData s.keys (s.keys.pendingPurge now request.groupId) :=
          Keys.sameData_pendingPurge
        refine .quiet hdata.states hdata.counts (Keys.openIndex_pendingPurge _ _ _) rfl ?_
        unfold World.stores
        dsimp only
        rw [htask]
      | committing siblings => exact .add htask rfl rfl
    · rename_i resolver htask
      obtain rfl := Option.some.inj hstep
      exact .of_resolve (by rw [htask]; rfl) rfl rfl rfl
    · rename_i now' htask
      obtain rfl := Option.some.inj hstep
      refine .quiet rfl rfl rfl rfl ?_
      unfold World.stores
      dsimp only
      rw [htask]
    · rename_i now' groups found stage htask
      obtain rfl := Option.some.inj hstep
      exact effect_stepBacklog htask
  | reserveOpenSlot now limit request =>
    simp only [World.next, Option.ite_none_left_eq_some, Option.some.injEq] at hstep
    exact .reserve hstep.2.symm
  | crash n =>
    obtain rfl := Option.some.inj hstep
    exact .quiet rfl rfl rfl rfl rfl
  | _ =>
    simp only [World.next, Option.ite_none_right_eq_some, Option.some.injEq] at hstep
    obtain ⟨-, rfl⟩ := hstep
    exact .quiet rfl rfl rfl rfl rfl

/-! ## The open index -/

/-- The question that a command adds to the open index. -/
def World.opens (s : World) : Label → Option InteractionId
  | .reserveOpenSlot _ _ request => some request.interactionId
  | .step n _ =>
    match s.tasks n with
    | .adding request false (.committing _) => some request.interactionId
    | _ => none
  | _ => none

theorem score?_remRangeByScore {z : SortedSet InteractionId} {low high score : ℤ}
    (h : (z.remRangeByScore low high).score? id = some score) : z.score? id = some score := by
  rw [SortedSet.remRangeByScore, SortedSet.score?_filter] at h
  exact (Option.filter_eq_some_iff.mp h).1

theorem score?_of_add {z : SortedSet InteractionId} {member : InteractionId} {score score' : ℤ}
    (h : (z.add member score').score? id = some score) :
    id = member ∨ z.score? id = some score := by
  by_cases hid : id = member
  · exact .inl hid
  · rw [SortedSet.score?_add_of_ne hid] at h
    exact .inr h

/-- What is open after a script was open before, or is the question that it was called with. -/
theorem Keys.openReserve_opened {k : Keys} {now : Time} {limit : ℕ} {request : InteractionRequest}
    {score : ℤ} (h : (k.openReserve now limit request).1.openIndex.score? id = some score) :
    k.openIndex.score? id = some score ∨ request.interactionId = id := by
  unfold openReserve at h
  dsimp only at h
  split_ifs at h
  · exact .inl (score?_remRangeByScore h)
  · rcases score?_of_add h with rfl | hold
    · exact .inr rfl
    · exact .inl (score?_remRangeByScore hold)

theorem Keys.openIndex_foldl_refreshState (clock expiresAt : Time) (siblings : List InteractionId)
    (k : Keys) : (siblings.foldl (refreshState clock expiresAt) k).openIndex = k.openIndex := by
  induction siblings generalizing k with
  | nil => rfl
  | cons sibling siblings ih =>
    rw [List.foldl_cons, ih]
    unfold refreshState
    split <;> rfl

theorem Keys.addQuestion_opened {k : Keys} {clock now : Time} {request : InteractionRequest}
    {siblings : List InteractionId} {reserved : Bool} {score : ℤ}
    (h : (k.addQuestion idleTtl clock now request siblings reserved).openIndex.score? id =
      some score) :
    k.openIndex.score? id = some score ∨ reserved = false ∧ request.interactionId = id := by
  unfold addQuestion at h
  dsimp only at h
  change (siblings.foldl (refreshState clock (clock + idleTtl)) _).openIndex.score? id = _ at h
  rw [openIndex_foldl_refreshState] at h
  cases reserved with
  | true => exact .inl (score?_remRangeByScore h)
  | false =>
    rcases score?_of_add h with rfl | hold
    · exact .inr ⟨rfl, rfl⟩
    · exact .inl (score?_remRangeByScore hold)

theorem openIndex_execute (s : World) (resolution : Resolution) (id : InteractionId)
    (group : GroupId) (sensitive : Bool) (remaining : ℤ) (state : Expiring InteractionState)
    (count : Expiring ℤ) :
    (s.execute resolution id group sensitive remaining state count).keys.openIndex =
      s.keys.openIndex.rem id := by
  cases resolution <;>
  · unfold World.execute
    simp only [Keys.recordAnswer, Keys.prunePending, Keys.countDown]
    split_ifs <;> rfl

/-- A question that is resolved is resolved once more, and no other. -/
theorem resolutions_execute {resolution : Resolution} {sensitive : Bool} {remaining : ℤ}
    {state : Expiring InteractionState} {count : Expiring ℤ}
    (answered : s'.answered =
      (s.execute resolution id group sensitive remaining state count).answered)
    (pruned : s'.pruned = (s.execute resolution id group sensitive remaining state count).pruned)
    (id' : InteractionId) :
    s'.resolutions id' = if id' = id then s.resolutions id' + 1 else s.resolutions id' := by
  unfold World.resolutions
  rw [answered, pruned]
  cases resolution <;> simp only [World.execute, Function.update_apply] <;> split_ifs with hid <;>
    first
    | rfl
    | (subst hid; omega)

namespace Effect

variable {a : Label}

theorem resolutions_le (h : Effect idleTtl s s' a) (id : InteractionId) :
    s.resolutions id ≤ s'.resolutions id := by
  cases h with
  | quiet _ _ _ hresolutions _ => rw [hresolutions]
  | reserve hworld => rw [hworld]; exact le_refl _
  | add _ _ hresolutions => rw [hresolutions]
  | resolve _ _ _ _ hanswered hpruned _ =>
    rw [resolutions_execute hanswered hpruned]
    split_ifs
    · exact Nat.le_succ _
    · exact le_refl _

/-- What is open after a command was open before, or it has opened it; the command has not resolved
it. -/
theorem opened (h : Effect idleTtl s s' a) {score : ℤ}
    (hscore : s'.keys.openIndex.score? id = some score) :
    (s.keys.openIndex.score? id = some score ∨ s.opens a = some id) ∧
      s'.resolutions id = s.resolutions id := by
  cases h with
  | quiet _ _ hopen hresolutions _ =>
    rw [hopen] at hscore
    exact ⟨.inl hscore, congrFun hresolutions id⟩
  | reserve hworld =>
    rw [hworld] at hscore
    refine ⟨(Keys.openReserve_opened hscore).imp_right fun hid => ?_, by rw [hworld]; rfl⟩
    exact congrArg some hid
  | add htask hkeys hresolutions =>
    rw [hkeys] at hscore
    refine ⟨(Keys.addQuestion_opened hscore).imp_right ?_, congrFun hresolutions id⟩
    rintro ⟨rfl, hid⟩
    unfold World.opens
    dsimp only
    rw [htask]
    exact congrArg some hid
  | @resolve _ _ _ id₁ _ _ _ _ _ _ _ _ hkeys hanswered hpruned _ =>
    rw [hkeys, openIndex_execute] at hscore
    rw [resolutions_execute hanswered hpruned]
    by_cases hid : id = id₁
    · subst hid
      rw [SortedSet.score?_rem_self] at hscore
      cases hscore
    · rw [SortedSet.score?_rem_of_ne hid] at hscore
      exact ⟨.inl hscore, if_neg hid⟩

end Effect

/-! ## The questions that are stored -/

/-- The questions of a group that are stored and that no call has resolved. -/
def World.unresolved (s : World) (stored : List InteractionRequest) (group : GroupId) : ℕ :=
  stored.countP fun request =>
    request.groupId = group && s.resolutions request.interactionId = 0

/-- What the store holds of a question is that of one that was stored, and the count and the open
index let go of it once it is resolved. -/
structure StoredInv (stored : List InteractionRequest) (s : World) : Prop where
  nodup : stored.Nodup
  asked : ∀ request ∈ stored, request ∈ s.asked
  present : ∀ request ∈ stored, (∃ state, s.keys.states request.interactionId = some state) ∨
    0 < s.resolutions request.interactionId
  states : ∀ id state, s.keys.states id = some state → state.value.request ∈ stored
  answered : ∀ id state, s.keys.states id = some state → state.value.status = .answered →
    0 < s.resolutions id
  counts : ∀ group count, s.keys.counts group = some count →
    count.value ≤ s.unresolved stored group
  opened : ∀ id score, s.keys.openIndex.score? id = some score → s.resolutions id = 0

theorem World.unresolved_congr {stored : List InteractionRequest}
    (h : s'.resolutions = s.resolutions) :
    s'.unresolved stored group = s.unresolved stored group := by
  unfold unresolved
  rw [h]

/-- The question that a command asks. -/
def Label.asks : Label → List InteractionRequest
  | .add _ request _ => [request]
  | _ => []

/-- The task that a command is of. -/
def Label.task? : Label → Option ℕ
  | .add n _ _ | .resolve n _ _ _ | .backlog n _ | .step n _ | .crash n => some n
  | _ => none

/-- A command asks its own question alone, and leaves the tasks that it is none of. -/
theorem World.frame_of_next {a : Label} (hstep : s.next idleTtl a = some s') :
    s'.asked = a.asks ++ s.asked ∧ ∀ n, a.task? ≠ some n → s'.tasks n = s.tasks n := by
  have hother : ∀ (n : ℕ) (task : Task) (tasks : ℕ → Task), tasks = s.tasks →
      ∀ n', some n ≠ some n' → Function.update tasks n task n' = s.tasks n' := by
    rintro n task _ rfl n' hne
    exact Function.update_of_ne (fun heq => hne (congrArg some heq.symm)) _ _
  have hresolve : ∀ (resolution : Resolution) (id : InteractionId) (group : GroupId)
      (stage : Stage), (s.resolve resolution id group stage).1.tasks = s.tasks := by
    intro resolution id group stage
    cases stage with
    | executing watch sensitive remaining =>
      simp only [resolve]
      split
      · split_ifs
        · cases resolution <;> rfl
        · rfl
      · rfl
    | readingStatus watch =>
      simp only [resolve]
      split
      · rfl
      · split_ifs
        · rfl
        · cases resolution <;> rfl
    | readingCount watch sensitive =>
      simp only [resolve]
      split <;> rfl
    | _ => rfl
  cases a with
  | step n now =>
    simp only [World.next, Option.ite_none_left_eq_some] at hstep
    obtain ⟨-, hstep⟩ := hstep
    split at hstep
    · cases hstep
    · cases hstep
    · rename_i stage htask
      obtain rfl := Option.some.inj hstep
      cases stage <;> exact ⟨rfl, hother n _ _ rfl⟩
    · rename_i resolver htask
      obtain rfl := Option.some.inj hstep
      have hframe := resolve_frame (s := s) resolver.resolution resolver.id resolver.group
        resolver.stage
      exact ⟨hframe.2, hother n _ _ (hresolve _ _ _ _)⟩
    · obtain rfl := Option.some.inj hstep
      exact ⟨rfl, hother n _ _ rfl⟩
    · rename_i now' groups found stage htask
      obtain rfl := Option.some.inj hstep
      cases groups with
      | nil => cases stage <;> exact ⟨rfl, hother n _ _ rfl⟩
      | cons group rest =>
        cases stage with
        | pruning overdue stage =>
          cases overdue with
          | nil => exact ⟨rfl, hother n _ _ rfl⟩
          | cons first overdue =>
            have hframe := resolve_frame (s := s) .prune first.interactionId group stage
            exact ⟨hframe.2, hother n _ _ (hresolve _ _ _ _)⟩
        | _ => exact ⟨rfl, hother n _ _ rfl⟩
  | reserveOpenSlot now limit request' =>
    simp only [World.next, Option.ite_none_left_eq_some, Option.some.injEq] at hstep
    obtain ⟨-, rfl⟩ := hstep
    exact ⟨rfl, fun _ _ => rfl⟩
  | crash n =>
    obtain rfl := Option.some.inj hstep
    exact ⟨rfl, hother n _ _ rfl⟩
  | tick clock =>
    simp only [World.next, Option.ite_none_right_eq_some, Option.some.injEq] at hstep
    obtain ⟨-, rfl⟩ := hstep
    exact ⟨rfl, fun _ _ => rfl⟩
  | _ =>
    simp only [World.next, Option.ite_none_right_eq_some, Option.some.injEq] at hstep
    obtain ⟨-, rfl⟩ := hstep
    exact ⟨rfl, hother _ _ _ rfl⟩

/-- A task that is at no `add` comes to one by the call of it alone. -/
theorem World.not_adding_of_next {a : Label} {n : ℕ} {request : InteractionRequest}
    {reserved : Bool} {stage : AddStage}
    (hnot : ∀ request reserved stage, s.tasks n ≠ .adding request reserved stage)
    (hasks : a.asks = []) (hstep : s.next idleTtl a = some s') :
    s'.tasks n ≠ .adding request reserved stage := by
  by_cases hn : a.task? = some n
  · have hupdate : ∀ (task : Task) (tasks : ℕ → Task),
        task ≠ .adding request reserved stage →
        Function.update tasks n task n ≠ .adding request reserved stage := by
      intro task tasks hne
      rwa [Function.update_self]
    cases a with
    | add => cases hasks
    | reserveOpenSlot => cases hn
    | tick => cases hn
    | crash n' =>
      obtain rfl := Option.some.inj hn
      obtain rfl := Option.some.inj hstep
      exact hupdate _ _ (by rintro ⟨⟩)
    | step n' now =>
      obtain rfl := Option.some.inj hn
      simp only [World.next, Option.ite_none_left_eq_some] at hstep
      obtain ⟨-, hstep⟩ := hstep
      split at hstep
      · cases hstep
      · cases hstep
      · next htask => exact absurd htask (hnot _ _ _)
      · next resolver htask =>
        obtain rfl := Option.some.inj hstep
        refine hupdate _ _ ?_
        split <;> rintro ⟨⟩
      · obtain rfl := Option.some.inj hstep
        exact hupdate _ _ (by rintro ⟨⟩)
      · next now' groups found stage' htask =>
        obtain rfl := Option.some.inj hstep
        cases groups with
        | nil =>
          cases stage' with
          | inspecting entries => exact hupdate _ _ (pruneNext_ne_adding _ _ _)
          | _ => exact hupdate _ _ (by rintro ⟨⟩)
        | cons group rest =>
          cases stage' with
          | inspecting entries => exact hupdate _ _ (pruneNext_ne_adding _ _ _)
          | pruning overdue stage' =>
            cases overdue with
            | nil => exact hupdate _ _ (by rintro ⟨⟩)
            | cons first overdue =>
              refine hupdate _ _ ?_
              split
              · rintro ⟨⟩
              · exact pruneNext_ne_adding _ _ _
              · rintro ⟨⟩
          | _ => exact hupdate _ _ (by rintro ⟨⟩)
    | _ =>
      obtain rfl := Option.some.inj hn
      simp only [World.next, Option.ite_none_right_eq_some, Option.some.injEq] at hstep
      obtain ⟨-, rfl⟩ := hstep
      exact hupdate _ _ (by rintro ⟨⟩)
  · rw [(World.frame_of_next hstep).2 n hn]
    exact hnot _ _ _

namespace StoredInv

variable {stored : List InteractionRequest} {a : Label}

/-- A step that stores nothing keeps what is stored, with what it holds of the questions. -/
theorem quiet (h : StoredInv stored s) (hstates : s'.keys.states = s.keys.states)
    (hcounts : s'.keys.counts = s.keys.counts) (hresolutions : s'.resolutions = s.resolutions)
    (hasked : ∀ request ∈ s.asked, request ∈ s'.asked)
    (hopened : ∀ id score, s'.keys.openIndex.score? id = some score → s.resolutions id = 0) :
    StoredInv stored s' where
  nodup := h.nodup
  asked request hmem := hasked request (h.asked request hmem)
  present request hmem := by
    rw [hstates, hresolutions]
    exact h.present request hmem
  states id state hstate := h.states id state (hstates ▸ hstate)
  answered id state hstate hstatus := by
    rw [hresolutions]
    exact h.answered id state (hstates ▸ hstate) hstatus
  counts group count hcount := by
    rw [World.unresolved_congr hresolutions]
    exact h.counts group count (hcounts ▸ hcount)
  opened id score hscore := by
    rw [hresolutions]
    exact hopened id score hscore

/-- A question that an `add` is about to store is none of those that are. -/
theorem not_stored (h : StoredInv stored s) (hinv : CountInv idleTtl s) {n : ℕ}
    {request : InteractionRequest} {reserved : Bool} {stage : AddStage}
    (htask : s.tasks n = .adding request reserved stage) : request ∉ stored := by
  have hok := hinv.tasks n
  rw [htask] at hok
  obtain ⟨-, hnone, hzero, -⟩ := hok
  intro hmem
  rcases h.present request hmem with ⟨state, hstate⟩ | hpos
  · rw [hnone] at hstate
    cases hstate
  · rw [hzero] at hpos
    exact absurd hpos (Nat.lt_irrefl 0)

/-- The transaction of an `add`. -/
theorem add (h : StoredInv stored s) (hinv : CountInv idleTtl s) {n : ℕ} {now : Time}
    {request : InteractionRequest} {siblings : List InteractionId} {reserved : Bool}
    (htask : s.tasks n = .adding request reserved (.committing siblings))
    (hkeys : s'.keys = s.keys.addQuestion idleTtl s.clock now request siblings reserved)
    (hresolutions : s'.resolutions = s.resolutions)
    (hasked : ∀ request ∈ s.asked, request ∈ s'.asked) : StoredInv (request :: stored) s' := by
  have hnot := h.not_stored hinv htask
  have hok := hinv.tasks n
  rw [htask] at hok
  obtain ⟨hmem, -, hzero, -⟩ := hok
  have hadded : Keys.Added s.clock (s.clock + idleTtl) request siblings s.keys s'.keys := by
    rw [hkeys]
    exact Keys.added_addQuestion idleTtl s.clock now request siblings reserved
  obtain ⟨response, hnew⟩ := hadded.state
  have hunresolved : ∀ group, s'.unresolved (request :: stored) group =
      s.unresolved stored group + if request.groupId = group then 1 else 0 := by
    intro group
    unfold World.unresolved
    rw [List.countP_cons, hresolutions]
    simp [hzero]
  refine ⟨List.nodup_cons.mpr ⟨hnot, h.nodup⟩, ?_, ?_, ?_, ?_, ?_, ?_⟩
  · rintro r hr
    rcases List.mem_cons.mp hr with rfl | hr
    · exact hasked _ hmem
    · exact hasked _ (h.asked r hr)
  · intro r hr
    rw [hresolutions]
    by_cases hid : r.interactionId = request.interactionId
    · rw [hid]
      exact .inl ⟨_, hnew⟩
    · have hr := (List.mem_cons.mp hr).resolve_left fun heq => hid (congrArg _ heq)
      refine (h.present r hr).imp_left ?_
      rintro ⟨state, hstate⟩
      obtain hsame | ⟨-, value, -, hvalue⟩ := hadded.states _ hid
      · exact ⟨state, hsame.trans hstate⟩
      · exact ⟨_, hvalue⟩
  · intro id state hstate
    by_cases hid : id = request.interactionId
    · subst hid
      obtain rfl := Option.some.inj (hnew.symm.trans hstate)
      exact List.mem_cons_self
    · obtain hsame | ⟨-, value, hread, hvalue⟩ := hadded.states id hid
      · exact List.mem_cons_of_mem _ (h.states id state (hsame ▸ hstate))
      · obtain ⟨entry, hentry, -, rfl⟩ := Expiring.read_eq_some.mp hread
        obtain rfl := Option.some.inj (hvalue.symm.trans hstate)
        exact List.mem_cons_of_mem _ (h.states id entry hentry)
  · intro id state hstate hstatus
    rw [hresolutions]
    by_cases hid : id = request.interactionId
    · subst hid
      obtain rfl := Option.some.inj (hnew.symm.trans hstate)
      cases hstatus
    · obtain hsame | ⟨-, value, hread, hvalue⟩ := hadded.states id hid
      · exact h.answered id state (hsame ▸ hstate) hstatus
      · obtain ⟨entry, hentry, -, rfl⟩ := Expiring.read_eq_some.mp hread
        obtain rfl := Option.some.inj (hvalue.symm.trans hstate)
        exact h.answered id entry hentry hstatus
  · intro group count hcount
    rw [hunresolved]
    by_cases hgroup : group = request.groupId
    · subst hgroup
      obtain rfl := Option.some.inj (hadded.count.symm.trans hcount)
      rw [if_pos rfl]
      have hbefore : (Expiring.read s.clock (s.keys.counts request.groupId)).getD 0 ≤
          s.unresolved stored request.groupId := by
        cases hread : Expiring.read s.clock (s.keys.counts request.groupId) with
        | none => exact Int.natCast_nonneg _
        | some value =>
          obtain ⟨entry, hentry, -, rfl⟩ := Expiring.read_eq_some.mp hread
          exact h.counts _ entry hentry
      show _ + 1 ≤ _
      push_cast
      omega
    · rw [hadded.counts group hgroup] at hcount
      rw [if_neg (Ne.symm hgroup)]
      exact h.counts group count hcount
  · intro id score hscore
    rw [hresolutions]
    rw [hkeys] at hscore
    rcases Keys.addQuestion_opened hscore with hold | ⟨-, rfl⟩
    · exact h.opened id score hold
    · exact hzero

/-- A call that resolves a question. -/
theorem resolve (h : StoredInv stored s) (hinv : CountInv idleTtl s) {resolution : Resolution}
    {sensitive : Bool} {remaining : ℤ} {state : Expiring InteractionState} {count : Expiring ℤ}
    (hcalled : Asked s id group) (hstate : s.keys.states id = some state)
    (hcount : s.keys.counts group = some count)
    (hkeys : s'.keys = (s.execute resolution id group sensitive remaining state count).keys)
    (hanswered : s'.answered =
      (s.execute resolution id group sensitive remaining state count).answered)
    (hpruned : s'.pruned = (s.execute resolution id group sensitive remaining state count).pruned)
    (hasked : ∀ request ∈ s.asked, request ∈ s'.asked) : StoredInv stored s' := by
  have hdone : Keys.Resolved id group state count remaining s.keys s'.keys := by
    rw [hkeys]
    exact resolved_execute resolution id group sensitive remaining state count
  have hresolutions := resolutions_execute hanswered hpruned
  have hself : 0 < s'.resolutions id := by
    rw [hresolutions, if_pos rfl]
    exact Nat.succ_pos _
  refine ⟨h.nodup, fun r hr => hasked r (h.asked r hr), ?_, ?_, ?_, ?_, ?_⟩
  · intro r hr
    by_cases hid : r.interactionId = id
    · exact .inr (hid ▸ hself)
    · rw [hdone.states _ hid, hresolutions, if_neg hid]
      exact h.present r hr
  · intro id' new hnew
    by_cases hid : id' = id
    · subst hid
      rw [(hdone.state new hnew).2]
      exact h.states id' state hstate
    · exact h.states id' new (hdone.states id' hid ▸ hnew)
  · intro id' new hnew hstatus
    by_cases hid : id' = id
    · exact hid ▸ hself
    · rw [hresolutions, if_neg hid]
      exact h.answered id' new (hdone.states id' hid ▸ hnew) hstatus
  · intro group' count' hcount'
    obtain ⟨asked, hmem, hid, hgroup⟩ := hcalled
    -- of one question at most the resolution has made a resolved one
    have hle : s.unresolved stored group' ≤ s'.unresolved stored group' +
        if group' = group then 1 else 0 := by
      unfold World.unresolved
      split_ifs with hsame
      · refine countP_le_succ (a := asked) h.nodup fun r hr hp => ?_
        simp only [Bool.and_eq_true, decide_eq_true_eq] at hp ⊢
        rw [hresolutions]
        by_cases hrid : r.interactionId = id
        · exact .inr (hinv.eq_of_id (h.asked r hr) hmem (hrid.trans hid.symm))
        · rw [if_neg hrid]
          exact .inl hp
      · refine List.countP_mono_left fun r hr hp => ?_
        simp only [Bool.and_eq_true, decide_eq_true_eq] at hp ⊢
        rw [hresolutions]
        have hrid : r.interactionId ≠ id := by
          intro hrid
          have heq := hinv.eq_of_id (h.asked r hr) hmem (hrid.trans hid.symm)
          rw [heq, hgroup] at hp
          exact hsame hp.1.symm
        rw [if_neg hrid]
        exact hp
    by_cases hsame : group' = group
    · subst hsame
      rw [hdone.count] at hcount'
      split_ifs at hcount'
      obtain rfl := Option.some.inj hcount'
      have hbefore := h.counts group' count hcount
      rw [if_pos rfl] at hle
      show count.value - 1 ≤ _
      omega
    · rw [hdone.counts group' hsame] at hcount'
      have hbefore := h.counts group' count' hcount'
      rw [if_neg hsame] at hle
      omega
  · intro id' score hscore
    rw [hkeys, openIndex_execute] at hscore
    by_cases hid : id' = id
    · subst hid
      rw [SortedSet.score?_rem_self] at hscore
      cases hscore
    · rw [SortedSet.score?_rem_of_ne hid] at hscore
      rw [hresolutions, if_neg hid]
      exact h.opened id' score hscore

/-- A question that a task resolves was asked in the group it is resolved in. -/
theorem asked_of_resolves (hinv : CountInv idleTtl s) {n : ℕ} {resolution : Resolution}
    {stage : Stage} (htask : (s.tasks n).resolves = some (resolution, id, group, stage)) :
    Asked s id group := by
  have hok := hinv.tasks n
  unfold Task.resolves at htask
  split at htask
  · next resolver heq =>
    rw [heq] at hok
    cases htask
    exact hok.1
  · next now group' rest found request overdue stage' heq =>
    rw [heq] at hok
    cases htask
    obtain ⟨hgroup, hmem⟩ := hok.1 request List.mem_cons_self
    exact ⟨request, hmem, rfl, (Option.some.inj hgroup).symm⟩
  · cases htask

/-- Every command keeps it that reserves no slot for a question that is resolved. -/
theorem next (h : StoredInv stored s) (hinv : CountInv idleTtl s)
    (hstep : s.next idleTtl a = some s')
    (hreserved : ∀ now limit request, a = .reserveOpenSlot now limit request →
      s.resolutions request.interactionId = 0) : StoredInv (s.stores a ++ stored) s' := by
  have hasked : ∀ request ∈ s.asked, request ∈ s'.asked := by
    rw [(World.frame_of_next hstep).1]
    exact fun request hmem => List.mem_append_right _ hmem
  cases World.effect_of_next hstep with
  | quiet hstates hcounts hopen hresolutions hstores =>
    rw [hstores]
    exact h.quiet hstates hcounts hresolutions hasked fun id score hscore =>
      h.opened id score (hopen ▸ hscore)
  | @reserve now limit request hworld =>
    subst hworld
    have hdata := Keys.sameData_openReserve (k := s.keys) now limit request
    refine h.quiet hdata.states hdata.counts rfl hasked fun id score hscore => ?_
    rcases Keys.openReserve_opened hscore with hold | rfl
    · exact h.opened id score hold
    · exact hreserved now limit request rfl
  | add htask hkeys hresolutions =>
    unfold World.stores
    dsimp only
    rw [htask]
    exact h.add hinv htask hkeys hresolutions hasked
  | resolve htask hstate hcount hkeys hanswered hpruned hstores =>
    obtain ⟨stage, htask⟩ := htask
    rw [hstores]
    exact h.resolve hinv (asked_of_resolves hinv htask) hstate hcount hkeys hanswered hpruned
      hasked

theorem start : StoredInv [] .start where
  nodup := List.nodup_nil
  asked := List.forall_mem_nil _
  present := List.forall_mem_nil _
  states _ _ h := by cases h
  answered _ _ h := by cases h
  counts _ _ h := by cases h
  opened _ _ h := by cases h

end StoredInv

end

end TaiSkeleton.Interactions
