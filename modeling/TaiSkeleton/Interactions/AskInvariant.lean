import TaiSkeleton.Interactions.AskUser

/-!
# What a call of `ask_user` relies on

Until its `add` is called nothing of a question is stored; while that is under way its task is the
only one that adds the question; from then on the question is among the stored ones. Each step of a
call keeps this and leaves what the other calls rely on.
-/

namespace TaiSkeleton.Interactions

open Lib

variable {idleTtl : Time} {limit : Option ℕ} {s s' : AskWorld} {id : InteractionId}
  {call : AskCall} {n : ℕ} {waits : Bool}

/-! ## The invariant -/

namespace AskWorld

/-- No question of this id has been asked of the store. -/
def Unasked (s : AskWorld) (id : InteractionId) : Prop :=
  ∀ request ∈ s.world.asked, request.interactionId ≠ id

/-- No question of this id has been stored. -/
def Unstored (s : AskWorld) (id : InteractionId) : Prop :=
  ∀ request ∈ s.stored, request.interactionId ≠ id

/-- The question is no member of the open index. -/
def Unopened (s : AskWorld) (id : InteractionId) : Prop :=
  s.world.keys.openIndex.score? id = none

end AskWorld

/-- The task that a call is in. -/
def AskStage.task? : AskStage → Option ℕ
  | .adding _ n | .pruning _ n _ => some n
  | _ => none

/-- What a call relies on. -/
def CallOk (limit : Option ℕ) (s : AskWorld) (id : InteractionId) : AskStage → Prop
  | .idle => s.Unasked id ∧ s.Unopened id
  | .reserving call => call.request.interactionId = id ∧ s.Unasked id ∧ s.Unopened id
  | .storing call => call.request.interactionId = id ∧ s.Unasked id
  | .adding call n => call.request.interactionId = id ∧ s.owner n = some id ∧
    ∃ stage, s.world.tasks n = .adding call.request limit.isSome stage
  | .delivering call | .waiting call | .abandoning call _ | .returned call =>
    call.request.interactionId = id ∧ call.request ∈ s.stored
  | .pruning call n _ => call.request.interactionId = id ∧ call.request ∈ s.stored ∧
    s.owner n = some id ∧
    ∃ stage, s.world.tasks n = .resolving ⟨.prune, id, call.request.groupId, stage⟩
  | .raised call => call.request.interactionId = id ∧
    (call.request ∈ s.stored ∧ 0 < s.world.resolutions id ∨ s.Unstored id ∧ s.Unopened id)

structure AskInv (idleTtl : Time) (limit : Option ℕ) (s : AskWorld) : Prop where
  count : CountInv idleTtl s.world
  store : StoredInv s.stored s.world
  calls : ∀ id, CallOk limit s id (s.calls id)
  /-- Only a call of `ask_user` adds a question. -/
  adds : ∀ n request reserved stage, s.world.tasks n = .adding request reserved stage →
    ∃ call, s.calls request.interactionId = .adding call n ∧ call.request = request

/-! ## Steps of others -/

/-- What a command leaves alone of a question and of the call that asks it. -/
structure Spared (s s' : AskWorld) (id : InteractionId) (a : Label) (stage : AskStage) : Prop where
  asks : ∀ request ∈ a.asks, request.interactionId ≠ id
  opens : s.world.opens a ≠ some id
  stores : ∀ request ∈ s.world.stores a, request.interactionId ≠ id
  task : ∀ n, stage.task? = some n → a.task? ≠ some n ∧ s'.owner n = s.owner n

theorem run_eq_some {a : Label} (h : s.run idleTtl a = some s') :
    s.world.next idleTtl a = some s'.world ∧ s'.stored = s.world.stores a ++ s.stored ∧
      s'.calls = s.calls ∧ s'.owner = s.owner := by
  unfold AskWorld.run at h
  obtain ⟨world, hstep, rfl⟩ := Option.map_eq_some_iff.mp h
  exact ⟨hstep, rfl, rfl, rfl⟩

theorem unopened_of_next {a : Label} (h : s.Unopened id)
    (hstep : s.world.next idleTtl a = some s'.world) (hopens : s.world.opens a ≠ some id) :
    s'.Unopened id := by
  unfold AskWorld.Unopened at h ⊢
  cases hscore : s'.world.keys.openIndex.score? id with
  | none => rfl
  | some score =>
    rcases ((World.effect_of_next hstep).opened hscore).1 with hold | hnew
    · rw [h] at hold
      cases hold
    · exact absurd hnew hopens

/-- A command that spares a call leaves what it relies on. -/
theorem CallOk.frame {a : Label} {stage : AskStage} (h : CallOk limit s id stage)
    (hstep : s.world.next idleTtl a = some s'.world)
    (hstored : s'.stored = s.world.stores a ++ s.stored) (hspared : Spared s s' id a stage) :
    CallOk limit s' id stage := by
  obtain ⟨hasked, htasks⟩ := World.frame_of_next hstep
  have hunasked : s.Unasked id → s'.Unasked id := by
    intro hbefore request hmem
    rw [hasked] at hmem
    exact (List.mem_append.mp hmem).elim (hspared.asks request) (hbefore request)
  have hunstored : s.Unstored id → s'.Unstored id := by
    intro hbefore request hmem
    rw [hstored] at hmem
    exact (List.mem_append.mp hmem).elim (hspared.stores request) (hbefore request)
  have hunopened : s.Unopened id → s'.Unopened id :=
    fun hbefore => unopened_of_next hbefore hstep hspared.opens
  have hmem : ∀ request, request ∈ s.stored → request ∈ s'.stored := by
    intro request hmem
    rw [hstored]
    exact List.mem_append_right _ hmem
  cases stage with
  | idle => exact ⟨hunasked h.1, hunopened h.2⟩
  | reserving call => exact ⟨h.1, hunasked h.2.1, hunopened h.2.2⟩
  | storing call => exact ⟨h.1, hunasked h.2⟩
  | adding call n =>
    obtain ⟨hid, howner, stage, htask⟩ := h
    obtain ⟨hne, hsame⟩ := hspared.task n rfl
    exact ⟨hid, hsame.trans howner, stage, (htasks n hne).trans htask⟩
  | pruning call n waits =>
    obtain ⟨hid, hstored, howner, stage, htask⟩ := h
    obtain ⟨hne, hsame⟩ := hspared.task n rfl
    exact ⟨hid, hmem _ hstored, hsame.trans howner, stage, (htasks n hne).trans htask⟩
  | raised call =>
    refine ⟨h.1, h.2.imp ?_ ?_⟩
    · rintro ⟨hstored, hpos⟩
      exact ⟨hmem _ hstored, hpos.trans_le ((World.effect_of_next hstep).resolutions_le id)⟩
    · rintro ⟨hunstored', hunopened'⟩
      exact ⟨hunstored hunstored', hunopened hunopened'⟩
  | _ => exact ⟨h.1, hmem _ h.2⟩

/-- A question that was not asked has not been resolved. -/
theorem CountInv.unresolved (h : CountInv idleTtl s.world) (hunasked : s.Unasked id) :
    s.world.resolutions id = 0 := by
  by_contra hne
  obtain ⟨request, hmem, hid⟩ := h.known id (Nat.pos_of_ne_zero hne)
  exact hunasked request hmem hid

namespace AskInv

/-- A command of a call, after which the call is at another stage. -/
theorem move {a : Label} {stage : AskStage} (h : AskInv idleTtl limit s)
    (hstep : s.world.next idleTtl a = some s'.world)
    (hstored : s'.stored = s.world.stores a ++ s.stored)
    (hcalls : s'.calls = Function.update s.calls id stage)
    (hreserved : ∀ now limit request, a = .reserveOpenSlot now limit request →
      request.interactionId = id ∧ s.Unasked id)
    (hspared : ∀ id', id' ≠ id → Spared s s' id' a (s.calls id'))
    (hok : CallOk limit s' id stage)
    (hadds : ∀ n request reserved stage', s'.world.tasks n = .adding request reserved stage' →
      (∃ stage', s.world.tasks n = .adding request reserved stage') ∧ request.interactionId ≠ id ∨
        ∃ call, stage = .adding call n ∧ call.request = request ∧ request.interactionId = id) :
    AskInv idleTtl limit s' where
  count := h.count.step hstep
  store := by
    rw [hstored]
    refine h.store.next h.count hstep fun now max request heq => ?_
    obtain ⟨rfl, hunasked⟩ := hreserved now max request heq
    exact h.count.unresolved hunasked
  calls id' := by
    rw [hcalls, Function.update_apply]
    split_ifs with hid
    · exact hid ▸ hok
    · exact (h.calls id').frame hstep hstored (hspared id' hid)
  adds n request reserved stage' htask := by
    rw [hcalls]
    rcases hadds n request reserved stage' htask with ⟨⟨stage'', hold⟩, hne⟩ |
      ⟨call, hstage, hcall, hid⟩
    · obtain ⟨call, hcall, heq⟩ := h.adds n request reserved stage'' hold
      exact ⟨call, (Function.update_of_ne hne _ _).trans hcall, heq⟩
    · refine ⟨call, ?_, hcall⟩
      rw [hid, Function.update_self, hstage]

/-- A call goes on without a command on the store. -/
theorem goTo {stage : AskStage} (h : AskInv idleTtl limit s) (hok : CallOk limit s id stage)
    (hadding : ∀ call n, s.calls id ≠ .adding call n) : AskInv idleTtl limit (s.goTo id stage) where
  count := h.count
  store := h.store
  calls id' := by
    unfold AskWorld.goTo
    dsimp only
    rw [Function.update_apply]
    split_ifs with hid
    · subst hid
      cases stage <;> exact hok
    · have hbefore := h.calls id'
      revert hbefore
      cases s.calls id' <;> exact fun hbefore => hbefore
  adds n request reserved stage' htask := by
    obtain ⟨call, hcall, heq⟩ := h.adds n request reserved stage' htask
    have hne : request.interactionId ≠ id := by
      rintro rfl
      exact hadding call n hcall
    exact ⟨call, (Function.update_of_ne hne _ _).trans hcall, heq⟩

end AskInv

/-! ## The steps of a call -/

theorem CallOk.owner {stage : AskStage} (h : CallOk limit s id stage) (htask : stage.task? = some n) :
    s.owner n = some id ∧ s.world.tasks n ≠ .idle := by
  cases stage with
  | adding call n' =>
    obtain rfl := Option.some.inj htask
    obtain ⟨-, howner, stage, htask⟩ := h
    exact ⟨howner, by rw [htask]; nofun⟩
  | pruning call n' waits =>
    obtain rfl := Option.some.inj htask
    obtain ⟨-, -, howner, stage, htask⟩ := h
    exact ⟨howner, by rw [htask]; nofun⟩
  | _ => cases htask

/-- A question that a task adds is the one that it opens and stores. -/
theorem stepAdd_cases {s s' : World} {now : Time} {request : InteractionRequest} {reserved : Bool}
    {stage : AddStage} (htask : s.tasks n = .adding request reserved stage)
    (hstep : s.next idleTtl (.step n now) = some s') :
    s.stores (.step n now) = [request] ∧ s'.tasks n = .ended ∨
      s.stores (.step n now) = [] ∧ s.opens (.step n now) = none ∧
        ∃ stage', s'.tasks n = .adding request reserved stage' := by
  simp only [World.next, Option.ite_none_left_eq_some, htask, Option.some.injEq] at hstep
  obtain ⟨-, rfl⟩ := hstep
  cases stage with
  | committing siblings => exact .inl ⟨by simp [World.stores, htask], Function.update_self _ _ _⟩
  | _ =>
    refine .inr ⟨by simp [World.stores, htask], by simp [World.opens, htask], ?_⟩
    exact ⟨_, Function.update_self _ _ _⟩

theorem opens_of_adding {s : World} {now : Time} {request : InteractionRequest} {reserved : Bool}
    {stage : AddStage} (htask : s.tasks n = .adding request reserved stage)
    (hopens : s.opens (.step n now) = some id) : request.interactionId = id := by
  unfold World.opens at hopens
  dsimp only at hopens
  rw [htask] at hopens
  split at hopens
  · next heq =>
    obtain ⟨rfl, -, -⟩ := Task.adding.inj heq
    exact Option.some.inj hopens
  · cases hopens

theorem quiet_of_resolving {s : World} (now : Time) {resolver : Resolver}
    (htask : s.tasks n = .resolving resolver) :
    s.stores (.step n now) = [] ∧ s.opens (.step n now) = none := by
  simp [World.stores, World.opens, htask]

theorem goTo_eq_some {a : Label} {stage : AskStage}
    (h : (s.run idleTtl a).map (·.goTo id stage) = some s') :
    s.world.next idleTtl a = some s'.world ∧ s'.stored = s.world.stores a ++ s.stored ∧
      s'.calls = Function.update s.calls id stage ∧ s'.owner = s.owner := by
  obtain ⟨s₁, hrun, rfl⟩ := Option.map_eq_some_iff.mp h
  obtain ⟨hstep, hstored, hcalls, howner⟩ := run_eq_some hrun
  exact ⟨hstep, hstored, by rw [← hcalls]; rfl, howner⟩

namespace AskInv

theorem unstored (h : AskInv idleTtl limit s) (hunasked : s.Unasked id) : s.Unstored id :=
  fun request hmem => hunasked request (h.store.asked request hmem)

/-- A command of one call spares the others. -/
theorem spared {a : Label} (h : AskInv idleTtl limit s)
    (hasks : ∀ request ∈ a.asks, request.interactionId = id)
    (hopens : ∀ id', s.world.opens a = some id' → id' = id)
    (hstores : ∀ request ∈ s.world.stores a, request.interactionId = id)
    (htask : ∀ n, a.task? = some n → s.owner n = some id ∨ s.world.tasks n = .idle)
    (howner : ∀ n, s.world.tasks n ≠ .idle → s'.owner n = s.owner n) :
    ∀ id', id' ≠ id → Spared s s' id' a (s.calls id') := by
  intro id' hne
  refine ⟨fun request hmem heq => hne (heq.symm.trans (hasks request hmem)),
    fun heq => hne (hopens id' heq),
    fun request hmem heq => hne (heq.symm.trans (hstores request hmem)), fun n hn => ?_⟩
  obtain ⟨hown, hbusy⟩ := (h.calls id').owner hn
  refine ⟨fun heq => ?_, howner n hbusy⟩
  rcases htask n heq with hmine | hidle
  · exact hne (Option.some.inj (hown.symm.trans hmine))
  · exact hbusy hidle

/-- The questions that are being added are those of before, where a command adds none. -/
theorem addsKept {stage : AskStage} (h : AskInv idleTtl limit s)
    (hadding : ∀ call n, s.calls id ≠ .adding call n)
    (hkept : ∀ n request reserved stage', s'.world.tasks n = .adding request reserved stage' →
      s.world.tasks n = .adding request reserved stage') :
    ∀ n request reserved stage', s'.world.tasks n = .adding request reserved stage' →
      (∃ stage', s.world.tasks n = .adding request reserved stage') ∧ request.interactionId ≠ id ∨
        ∃ call, stage = .adding call n ∧ call.request = request ∧ request.interactionId = id := by
  intro n request reserved stage' htask
  have hold := hkept n request reserved stage' htask
  refine .inl ⟨⟨stage', hold⟩, ?_⟩
  obtain ⟨call, hcall, -⟩ := h.adds n request reserved stage' hold
  rintro rfl
  exact hadding call n hcall

/-- `reserve_open_slot` returns, or its reply is lost. -/
theorem reserve {now : Time} {max : ℕ} {stage : AskStage} (h : AskInv idleTtl limit s)
    (hcall : s.calls id = .reserving call)
    (hstep : (s.run idleTtl (.reserveOpenSlot now max call.request)).map (·.goTo id stage) =
      some s')
    (hstage : stage = .storing call ∨
      stage = .raised call ∧ (s.world.keys.openReserve now max call.request).2 = false) :
    AskInv idleTtl limit s' := by
  obtain ⟨hnext, hstored, hcalls, howner⟩ := goTo_eq_some hstep
  have hbefore := h.calls id
  rw [hcall] at hbefore
  obtain ⟨hid, hunasked, hunopened⟩ := hbefore
  obtain ⟨hasked, -⟩ := World.frame_of_next hnext
  have hworld := hnext
  simp only [World.next, Option.ite_none_left_eq_some, Option.some.injEq] at hworld
  obtain ⟨-, hworld⟩ := hworld
  refine h.move hnext hstored hcalls ?_ ?_ ?_ (h.addsKept (by rw [hcall]; rintro _ _ ⟨⟩) ?_)
  · rintro _ _ _ ⟨⟩
    exact ⟨hid, hunasked⟩
  · refine h.spared (List.forall_mem_nil _) ?_ (List.forall_mem_nil _)
      (by rintro _ ⟨⟩)
      fun n _ => by rw [howner]
    rintro _ ⟨⟩
    exact hid
  · have hunasked' : s'.Unasked id := by
      intro request hmem
      rw [hasked] at hmem
      exact hunasked request hmem
    rcases hstage with rfl | ⟨rfl, hrefused⟩
    · exact ⟨hid, hunasked'⟩
    · refine ⟨hid, .inr ⟨?_, ?_⟩⟩
      · intro request hmem
        rw [hstored] at hmem
        exact h.unstored hunasked request hmem
      · unfold AskWorld.Unopened at hunopened ⊢
        rw [← hworld]
        unfold Keys.openReserve at hrefused ⊢
        dsimp only at hrefused ⊢
        split_ifs at hrefused ⊢
        cases hscore : (s.world.keys.openIndex.remRangeByScore 0 now).score? id with
        | none => rfl
        | some score =>
          rw [score?_remRangeByScore hscore] at hunopened
          cases hunopened
  · intro n request reserved stage' htask
    rw [← hworld] at htask
    exact htask

/-- `add` is called. -/
theorem add {s₁ : AskWorld} (h : AskInv idleTtl limit s) (hcall : s.calls id = .storing call)
    (hstep : s.run idleTtl (.add n call.request limit.isSome) = some s₁) :
    AskInv idleTtl limit ((s₁.own n id).goTo id (.adding call n)) := by
  obtain ⟨hnext, hstored, hcalls, howner⟩ := run_eq_some hstep
  have hbefore := h.calls id
  rw [hcall] at hbefore
  obtain ⟨hid, hunasked⟩ := hbefore
  have hworld := hnext
  simp only [World.next, Option.ite_none_right_eq_some, Option.some.injEq] at hworld
  obtain ⟨⟨hidle, -⟩, hworld⟩ := hworld
  have htasks : s₁.world.tasks =
      Function.update s.world.tasks n (.adding call.request limit.isSome .listing) := by
    rw [← hworld]
    rfl
  have hcalls' : ((s₁.own n id).goTo id (.adding call n)).calls =
      Function.update s.calls id (.adding call n) := by
    rw [← hcalls]
    rfl
  refine h.move hnext hstored hcalls' (by rintro _ _ _ ⟨⟩) ?_ ?_ ?_
  · refine h.spared ?_ (by rintro _ ⟨⟩) (List.forall_mem_nil _) ?_ ?_
    · intro request hmem
      rw [List.mem_singleton.mp hmem]
      exact hid
    · rintro _ ⟨⟩
      exact .inr hidle
    · intro n' hbusy
      show Function.update s₁.owner n _ n' = _
      have hne : n' ≠ n := by
        rintro rfl
        exact hbusy hidle
      rw [Function.update_of_ne hne, howner]
  · refine ⟨hid, Function.update_self _ _ _, .listing, ?_⟩
    show s₁.world.tasks n = _
    rw [htasks, Function.update_self]
  · intro n' request reserved stage' htask
    change s₁.world.tasks n' = _ at htask
    rw [htasks, Function.update_apply] at htask
    split_ifs at htask with hn
    · obtain ⟨rfl, -, -⟩ := Task.adding.inj htask
      exact .inr ⟨call, by rw [hn], rfl, hid⟩
    · refine .inl ⟨⟨stage', htask⟩, ?_⟩
      obtain ⟨call', hcall', -⟩ := h.adds n' request reserved stage' htask
      rintro rfl
      rw [hcall] at hcall'
      cases hcall'

/-- A call is in its own task alone while it adds its question. -/
theorem addsOwn {stage : AskStage} (h : AskInv idleTtl limit s)
    (hcall : s.calls id = .adding call n)
    (htasks : ∀ n', n' ≠ n → s'.world.tasks n' = s.world.tasks n')
    (hown : ∀ request reserved stage', s'.world.tasks n = .adding request reserved stage' →
      stage = .adding call n ∧ call.request = request) :
    ∀ n request reserved stage', s'.world.tasks n = .adding request reserved stage' →
      (∃ stage', s.world.tasks n = .adding request reserved stage') ∧ request.interactionId ≠ id ∨
        ∃ call, stage = .adding call n ∧ call.request = request ∧ request.interactionId = id := by
  have hbefore := h.calls id
  rw [hcall] at hbefore
  obtain ⟨hid, -⟩ := hbefore
  intro n' request reserved stage' htask
  by_cases hn : n' = n
  · subst hn
    obtain ⟨hstage, rfl⟩ := hown request reserved stage' htask
    exact .inr ⟨call, hstage, rfl, hid⟩
  · rw [htasks n' hn] at htask
    refine .inl ⟨⟨stage', htask⟩, ?_⟩
    obtain ⟨call', hcall', -⟩ := h.adds n' request reserved stage' htask
    rintro rfl
    rw [hcall] at hcall'
    exact hn (AskStage.adding.inj hcall').2.symm

/-- A command of `add` returns. -/
theorem stepAdd {now : Time} {s₁ : AskWorld} (h : AskInv idleTtl limit s)
    (hcall : s.calls id = .adding call n) (hstep : s.run idleTtl (.step n now) = some s₁) :
    AskInv idleTtl limit (s₁.goTo id (AskWorld.afterAdd call n (s₁.world.tasks n))) := by
  obtain ⟨hnext, hstored, hcalls, howner⟩ := run_eq_some hstep
  have hbefore := h.calls id
  rw [hcall] at hbefore
  obtain ⟨hid, hown, stage, htask⟩ := hbefore
  obtain ⟨-, htasks⟩ := World.frame_of_next hnext
  have hcases := stepAdd_cases htask hnext
  have hcalls' : (s₁.goTo id (AskWorld.afterAdd call n (s₁.world.tasks n))).calls =
      Function.update s.calls id (AskWorld.afterAdd call n (s₁.world.tasks n)) := by
    rw [← hcalls]
    rfl
  refine h.move hnext hstored hcalls' nofun ?_ ?_ ?_
  · refine h.spared (List.forall_mem_nil _) ?_ ?_ ?_ fun n' _ => congrFun howner n'
    · exact fun id' hopens => (opens_of_adding htask hopens).symm.trans hid
    · intro request hmem
      rcases hcases with ⟨hstores, -⟩ | ⟨hstores, -⟩
      · rw [hstores, List.mem_singleton] at hmem
        exact hmem ▸ hid
      · rw [hstores] at hmem
        cases hmem
    · rintro _ ⟨⟩
      exact .inl hown
  · rcases hcases with ⟨hstores, hended⟩ | ⟨-, -, stage', hadding⟩
    · rw [hended]
      have hmem : call.request ∈ (s₁.goTo id (AskWorld.afterAdd call n .ended)).stored := by
        show _ ∈ s₁.stored
        rw [hstored, hstores]
        exact List.mem_cons_self
      unfold AskWorld.afterAdd at hmem ⊢
      rw [if_pos rfl] at hmem ⊢
      cases hchannel : call.channel with
      | true =>
        rw [hchannel] at hmem
        exact ⟨hid, hmem⟩
      | false =>
        rw [hchannel] at hmem
        exact ⟨hid, hmem⟩
    · rw [hadding]
      exact ⟨hid, (congrFun howner n).trans hown, stage', hadding⟩
  · refine h.addsOwn hcall
      (fun n' hn => htasks n' fun heq => hn (Option.some.inj heq).symm) ?_
    intro request reserved stage' hadding
    rcases hcases with ⟨-, hended⟩ | ⟨-, -, stage'', hadding'⟩
    · change s₁.world.tasks n = _ at hadding
      rw [hended] at hadding
      cases hadding
    · change s₁.world.tasks n = _ at hadding
      rw [hadding'] at hadding ⊢
      obtain ⟨rfl, -, -⟩ := Task.adding.inj hadding
      exact ⟨rfl, rfl⟩

/-- `add` fails before its transaction, while no slot is held for its question. -/
theorem crash (h : AskInv idleTtl limit s) (hcall : s.calls id = .adding call n)
    (hstep : (s.run idleTtl (.crash n)).map (·.goTo id (.raised call)) = some s')
    (hunopened : s.Unopened id) : AskInv idleTtl limit s' := by
  obtain ⟨hnext, hstored, hcalls, howner⟩ := goTo_eq_some hstep
  have hbefore := h.calls id
  rw [hcall] at hbefore
  obtain ⟨hid, hown, stage, htask⟩ := hbefore
  obtain ⟨-, htasks⟩ := World.frame_of_next hnext
  have hasked := h.count.tasks n
  rw [htask] at hasked
  refine h.move hnext hstored hcalls nofun ?_ ?_ ?_
  · refine h.spared (List.forall_mem_nil _) nofun (List.forall_mem_nil _) ?_
      fun n' _ => congrFun howner n'
    rintro _ ⟨⟩
    exact .inl hown
  · refine ⟨hid, .inr ⟨fun request hmem heq => ?_, unopened_of_next hunopened hnext nofun⟩⟩
    rw [hstored] at hmem
    have hsame := h.count.eq_of_id (h.store.asked request hmem) hasked.1 (heq.trans hid.symm)
    exact h.store.not_stored h.count htask (hsame ▸ hmem)
  · refine h.addsOwn hcall
      (fun n' hn => htasks n' fun heq => hn (Option.some.inj heq).symm) ?_
    intro request reserved stage' hadding
    have hworld := Option.some.inj hnext
    rw [← hworld] at hadding
    change Function.update s.world.tasks n .ended n = _ at hadding
    rw [Function.update_self] at hadding
    cases hadding

/-- `prune_pending` is called. -/
theorem prune {s₁ : AskWorld} (h : AskInv idleTtl limit s)
    (hcall : s.calls id = .abandoning call waits)
    (hstep : s.run idleTtl (.resolve n .prune id call.request.groupId) = some s₁) :
    AskInv idleTtl limit ((s₁.own n id).goTo id (.pruning call n waits)) := by
  obtain ⟨hnext, hstored, hcalls, howner⟩ := run_eq_some hstep
  have hbefore := h.calls id
  rw [hcall] at hbefore
  obtain ⟨hid, hmem⟩ := hbefore
  have hworld := hnext
  simp only [World.next, Option.ite_none_right_eq_some, Option.some.injEq] at hworld
  obtain ⟨⟨hidle, -⟩, hworld⟩ := hworld
  have htasks : s₁.world.tasks = Function.update s.world.tasks n
      (.resolving ⟨.prune, id, call.request.groupId, .watching⟩) := by
    rw [← hworld]
    rfl
  have hcalls' : ((s₁.own n id).goTo id (.pruning call n waits)).calls =
      Function.update s.calls id (.pruning call n waits) := by
    rw [← hcalls]
    rfl
  refine h.move hnext hstored hcalls' (by rintro _ _ _ ⟨⟩) ?_ ?_
    (h.addsKept (by rw [hcall]; rintro _ _ ⟨⟩) ?_)
  · refine h.spared (List.forall_mem_nil _) (by rintro _ ⟨⟩) (List.forall_mem_nil _) ?_ ?_
    · rintro _ ⟨⟩
      exact .inr hidle
    · intro n' hbusy
      show Function.update s₁.owner n _ n' = _
      have hne : n' ≠ n := by
        rintro rfl
        exact hbusy hidle
      rw [Function.update_of_ne hne, howner]
  · refine ⟨hid, ?_, Function.update_self _ _ _, .watching, ?_⟩
    · show _ ∈ s₁.stored
      rw [hstored]
      exact hmem
    · show s₁.world.tasks n = _
      rw [htasks, Function.update_self]
  · intro n' request reserved stage' htask
    change s₁.world.tasks n' = _ at htask
    rw [htasks, Function.update_apply] at htask
    split_ifs at htask
    exact htask

end AskInv

/-- Where the state hash of a question has not run out, `prune_pending` ends with the question
resolved. -/
theorem resolved_of_prune {w : World} {stored : List InteractionRequest}
    {request : InteractionRequest} (stage : Stage) (hcount : CountInv idleTtl w)
    (hstore : StoredInv stored w) (hmem : request ∈ stored)
    (hpresent : w.isPending request.interactionId = true ∨ 0 < w.resolutions request.interactionId)
    (hends : ∀ stage', (w.resolve .prune request.interactionId request.groupId stage).2 ≠
      .goesOn stage') :
    0 < (w.resolve .prune request.interactionId request.groupId stage).1.resolutions
      request.interactionId := by
  cases stage with
  | watching => exact absurd rfl (hends _)
  | readingSensitive watch => exact absurd rfl (hends _)
  | readingStatus watch =>
    simp only [World.resolve] at hends ⊢
    split at hends
    · next hread =>
      refine hpresent.resolve_left fun hpending => ?_
      unfold World.isPending at hpending
      rw [hread] at hpending
      cases hpending
    · next state hread =>
      split_ifs at hends ⊢ with hstatus
      · obtain ⟨entry, hentry, -, rfl⟩ := Expiring.read_eq_some.mp hread
        exact hstore.answered _ entry hentry hstatus
      · exact absurd rfl (hends _)
  | readingCount watch sensitive =>
    simp only [World.resolve] at hends ⊢
    split at hends
    · next hread =>
      refine hpresent.resolve_left fun hpending => ?_
      obtain ⟨count, hcount', hlive⟩ := hcount.count_of_pending (hstore.asked _ hmem) hpending
      have hsome : w.readCount request.groupId = some count.value :=
        Expiring.read_eq_some.mpr ⟨count, hcount', hlive, rfl⟩
      rw [hread] at hsome
      cases hsome
    · exact absurd rfl (hends _)
  | executing watch sensitive remaining =>
    obtain ⟨-, -, -, hnot⟩ | ⟨sensitive', remaining', state, count, -, -, hdone⟩ :=
      w.resolve_cases .prune request.interactionId request.groupId
        (.executing watch sensitive remaining)
    · cases houtcome : (w.resolve .prune request.interactionId request.groupId
        (.executing watch sensitive remaining)).2 with
      | goesOn stage' => exact absurd houtcome (hends stage')
      | returned claimed =>
        cases claimed with
        | true => exact absurd houtcome hnot
        | false =>
          simp only [World.resolve] at houtcome
          split at houtcome
          · split_ifs at houtcome
            cases houtcome
          · cases houtcome
      | raised =>
        simp only [World.resolve] at houtcome
        split at houtcome
        · split_ifs at houtcome
        · cases houtcome
    · rw [hdone]
      have hmore : (w.execute .prune request.interactionId request.groupId sensitive' remaining'
          state count).resolutions request.interactionId =
            w.resolutions request.interactionId + 1 :=
        (resolutions_execute rfl rfl request.interactionId).trans (if_pos rfl)
      rw [hmore]
      exact Nat.succ_pos _

namespace AskInv

/-- A command of `prune_pending` that finds the state hash of its question, or the question
resolved. -/
theorem stepPrune {now : Time} {s₁ : AskWorld} {resolver : Resolver} (h : AskInv idleTtl limit s)
    (hcall : s.calls id = .pruning call n waits) (htask : s.world.tasks n = .resolving resolver)
    (hstep : s.run idleTtl (.step n now) = some s₁)
    (hpresent : s.world.isPending id = true ∨ 0 < s.world.resolutions id) :
    AskInv idleTtl limit (s₁.goTo id (AskWorld.afterPrune call n waits
      (s.world.resolve resolver.resolution resolver.id resolver.group resolver.stage).2)) := by
  obtain ⟨hnext, hstored, hcalls, howner⟩ := run_eq_some hstep
  have hbefore := h.calls id
  rw [hcall] at hbefore
  obtain ⟨hid, hmem, hown, stage, htask'⟩ := hbefore
  obtain rfl := Task.resolving.inj (htask.symm.trans htask')
  dsimp only
  subst hid
  obtain ⟨hquiet, hopens⟩ := quiet_of_resolving now htask
  have hends := resolved_of_prune stage h.count h.store hmem hpresent
  have hworld := hnext
  simp only [World.next, Option.ite_none_left_eq_some, htask, Option.some.injEq] at hworld
  obtain ⟨-, hworld⟩ := hworld
  have hmem' : call.request ∈ s₁.stored := by
    rw [hstored]
    exact List.mem_append_right _ hmem
  obtain ⟨-, htasks⟩ := World.frame_of_next hnext
  have hresolutions : s₁.world.resolutions = (s.world.resolve .prune call.request.interactionId
      call.request.groupId stage).1.resolutions := by
    rw [← hworld]
    rfl
  have htasks' : ∀ stage', (s.world.resolve .prune call.request.interactionId
      call.request.groupId stage).2 = .goesOn stage' → s₁.world.tasks n =
        .resolving ⟨.prune, call.request.interactionId, call.request.groupId, stage'⟩ := by
    intro stage' hgoes
    rw [← hworld]
    refine (Function.update_self _ _ _).trans ?_
    rw [hgoes]
  rw [← hresolutions] at hends
  generalize (s.world.resolve .prune call.request.interactionId call.request.groupId stage).2 =
    outcome at hends htasks' ⊢
  have hcalls' : (s₁.goTo call.request.interactionId
      (AskWorld.afterPrune call n waits outcome)).calls = Function.update s.calls
        call.request.interactionId (AskWorld.afterPrune call n waits outcome) := by
    rw [← hcalls]
    rfl
  refine h.move hnext hstored hcalls' (by rintro _ _ _ ⟨⟩) ?_ ?_
    (h.addsKept (by rw [hcall]; rintro _ _ ⟨⟩) ?_)
  · refine h.spared (List.forall_mem_nil _) ?_ ?_ ?_ fun n' _ => congrFun howner n'
    · rw [hopens]
      rintro _ ⟨⟩
    · rw [hquiet]
      exact List.forall_mem_nil _
    · rintro _ ⟨⟩
      exact .inl hown
  · cases outcome with
    | goesOn stage' => exact ⟨rfl, hmem', (congrFun howner n).trans hown, stage', htasks' _ rfl⟩
    | raised => exact ⟨rfl, .inl ⟨hmem', hends (by rintro _ ⟨⟩)⟩⟩
    | returned claimed =>
      cases claimed with
      | true => exact ⟨rfl, .inl ⟨hmem', hends (by rintro _ ⟨⟩)⟩⟩
      | false =>
        cases waits with
        | true => exact ⟨rfl, hmem'⟩
        | false => exact ⟨rfl, .inl ⟨hmem', hends (by rintro _ ⟨⟩)⟩⟩
  · intro n' request reserved stage' hadding
    by_cases hn : n' = n
    · subst hn
      refine absurd hadding (World.not_adding_of_next (fun _ _ _ heq => ?_) rfl hnext)
      rw [htask] at heq
      cases heq
    · exact (htasks n' fun heq => hn (Option.some.inj heq).symm).symm.trans hadding

/-- A command of another call on the store. -/
theorem other {a : Label} (h : AskInv idleTtl limit s) (hother : s.isOther a = true)
    (hstep : s.run idleTtl a = some s') : AskInv idleTtl limit s' := by
  obtain ⟨hnext, hstored, hcalls, howner⟩ := run_eq_some hstep
  obtain ⟨hasked, htasks⟩ := World.frame_of_next hnext
  have hfree : ∀ n, a.task? = some n →
      ∀ request reserved stage, s.world.tasks n ≠ .adding request reserved stage := by
    intro n htask request reserved stage hadding
    obtain ⟨call, hcall, -⟩ := h.adds n request reserved stage hadding
    have hbefore := h.calls request.interactionId
    rw [hcall] at hbefore
    cases a with
    | add => cases hother
    | reserveOpenSlot => cases htask
    | tick => cases htask
    | step n' now =>
      obtain rfl := Option.some.inj htask
      have hnone := of_decide_eq_true hother
      rw [hbefore.2.1] at hnone
      cases hnone
    | crash n' =>
      obtain rfl := Option.some.inj htask
      have hnone := of_decide_eq_true hother
      rw [hbefore.2.1] at hnone
      cases hnone
    | _ =>
      obtain rfl := Option.some.inj htask
      simp [World.next, hadding] at hnext
  have hasks : a.asks = [] := by
    cases a with
    | add => cases hother
    | _ => rfl
  have hstores : s.world.stores a = [] ∧ s.world.opens a = none := by
    cases a with
    | add => cases hother
    | reserveOpenSlot => cases hother
    | step n now =>
      have hnot := hfree n rfl
      unfold World.stores World.opens
      dsimp only
      constructor
      · split
        · next heq => exact absurd heq (hnot _ _ _)
        · rfl
      · split
        · next heq => exact absurd heq (hnot _ _ _)
        · rfl
    | _ => exact ⟨rfl, rfl⟩
  refine ⟨h.count.step hnext, ?_, fun id => ?_, fun n request reserved stage hadding => ?_⟩
  · rw [hstored]
    refine h.store.next h.count hnext fun now max request heq => ?_
    rw [heq] at hother
    cases hother
  · rw [hcalls]
    refine (h.calls id).frame hnext hstored ⟨?_, ?_, ?_, fun n hn => ⟨fun heq => ?_, ?_⟩⟩
    · rw [hasks]
      exact List.forall_mem_nil _
    · rw [hstores.2]
      rintro ⟨⟩
    · rw [hstores.1]
      exact List.forall_mem_nil _
    · obtain ⟨hown, hbusy⟩ := (h.calls id).owner hn
      cases a with
      | add => cases hother
      | reserveOpenSlot => cases heq
      | tick => cases heq
      | step n' now =>
        obtain rfl := Option.some.inj heq
        have hnone := of_decide_eq_true hother
        rw [hown] at hnone
        cases hnone
      | crash n' =>
        obtain rfl := Option.some.inj heq
        have hnone := of_decide_eq_true hother
        rw [hown] at hnone
        cases hnone
      | _ =>
        obtain rfl := Option.some.inj heq
        simp only [World.next, Option.ite_none_right_eq_some] at hnext
        exact hbusy hnext.1.1
    · rw [howner]
  · rw [hcalls]
    by_cases hn : a.task? = some n
    · -- a task of another call is at no `add`, before or after
      exfalso
      have hnot := hfree n hn
      cases a with
      | add => cases hother
      | reserveOpenSlot => cases hn
      | tick => cases hn
      | _ =>
        obtain rfl := Option.some.inj hn
        exact World.not_adding_of_next hnot hasks hnext hadding
    · rw [htasks n hn] at hadding
      exact h.adds n request reserved stage hadding

end AskInv

end TaiSkeleton.Interactions
