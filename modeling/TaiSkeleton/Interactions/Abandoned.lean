import TaiSkeleton.Interactions.AskInvariant

/-!
# What an abandoned question leaves

A call of `ask_user` that raises once its question is stored has pruned it, or found it resolved,
except where the wait for the reply fails, or the `add` itself after it has taken effect; and where
the `add` fails before that, a slot that was reserved for the question stays. Where none of this
happens nothing is left of the question.
-/

namespace TaiSkeleton.Interactions

open Lib

variable {idleTtl : Time} {limit : Option ℕ} {s s' : AskWorld} {id : InteractionId}
  {call : AskCall}

/-! ## Tidy steps -/

/-- A step that leaves no question behind: a slot is not reserved by a script whose reply is lost;
`add` fails only while no slot is held for its question, and not once its transaction has taken
effect; the wait for the reply fails only once the question is resolved; and the state hash of the
question has not run out when `prune_pending` comes to it. -/
def Tidy (limit : Option ℕ) (s : AskWorld) : AskLabel → Prop
  | .reserve id now (some .after) =>
    match s.calls id, limit with
    | .reserving call, some max => (s.world.keys.openReserve now max call.request).2 = false
    | _, _ => True
  | .stepAdd id now (some fault) =>
    match s.calls id with
    | .adding _ n => s.Unopened id ∧ (fault = .after → s.world.stores (.step n now) = [])
    | _ => True
  | .wait id .failed => 0 < s.world.resolutions id
  | .stepPrune id _ => s.world.isPending id = true ∨ 0 < s.world.resolutions id
  | _ => True

/-- The runs of tidy steps. -/
def tidyAskUser (idleTtl : Time) (limit : Option ℕ) : System AskWorld AskLabel :=
  (askUser idleTtl limit).when (Tidy limit)

namespace AskInv

theorem start : AskInv idleTtl limit .start where
  count := .start
  store := .start
  calls _ := ⟨List.forall_mem_nil _, rfl⟩
  adds _ _ _ _ h := by cases h

theorem deliver {delivery : Delivery} (h : AskInv idleTtl limit s)
    (hcall : s.calls id = .delivering call) :
    AskInv idleTtl limit (s.goTo id (match delivery with
      | .delivered => .waiting call
      | .failed => .abandoning call true
      | .cancelled => .abandoning call false)) := by
  have hbefore := h.calls id
  rw [hcall] at hbefore
  refine h.goTo ?_ (by rw [hcall]; nofun)
  cases delivery <;> exact hbefore

/-- A command of `add` fails. -/
theorem addFails {fault : Fault} {now : Time} {n : ℕ} (h : AskInv idleTtl limit s)
    (hcall : s.calls id = .adding call n) (hunopened : s.Unopened id)
    (hbefore : fault = .after → s.world.stores (.step n now) = [])
    (hnext : s.next idleTtl limit (.stepAdd id now (some fault)) = some s') :
    AskInv idleTtl limit s' := by
  unfold AskWorld.next at hnext
  simp only [hcall] at hnext
  cases fault with
  | before => exact h.crash hcall hnext hunopened
  | after =>
    obtain ⟨s₁, hrun, hcrash⟩ := Option.bind_eq_some_iff.mp hnext
    obtain ⟨hstep, -, hcalls, -⟩ := run_eq_some hrun
    have hok := h.calls id
    rw [hcall] at hok
    obtain ⟨-, -, stage, htask⟩ := hok
    have hcall₁ : s₁.calls id = .adding call n := (congrFun hcalls id).trans hcall
    rcases stepAdd_cases htask hstep with ⟨hstores, -⟩ | ⟨-, hopens, stage', hadding⟩
    · rw [hbefore rfl] at hstores
      cases hstores
    · have hinv := h.stepAdd hcall hrun
      rw [hadding] at hinv
      have hsame : s₁.goTo id (AskWorld.afterAdd call n
          (.adding call.request limit.isSome stage')) = s₁ := by
        unfold AskWorld.goTo AskWorld.afterAdd
        rw [if_neg nofun, ← hcall₁, Function.update_eq_self]
      rw [hsame] at hinv
      refine hinv.crash hcall₁ hcrash (unopened_of_next hunopened hstep ?_)
      rw [hopens]
      nofun

theorem next {a : AskLabel} (h : AskInv idleTtl limit s) (hok : Tidy limit s a)
    (hnext : s.next idleTtl limit a = some s') : AskInv idleTtl limit s' := by
  cases a with
  | ask call =>
    unfold AskWorld.next at hnext
    dsimp only at hnext
    split at hnext
    · next hcall =>
      obtain rfl := Option.some.inj hnext
      have hbefore := h.calls call.request.interactionId
      rw [hcall] at hbefore
      refine h.goTo ?_ (by rw [hcall]; nofun)
      split_ifs
      · exact ⟨rfl, hbefore⟩
      · exact ⟨rfl, hbefore.1⟩
    · cases hnext
  | reserve id now fault =>
    unfold AskWorld.next at hnext
    unfold Tidy at hok
    dsimp only at hnext
    split at hnext
    · next call max hcall =>
      cases fault with
      | none =>
        refine h.reserve hcall hnext ?_
        split_ifs with hreserved
        · exact .inl rfl
        · exact .inr ⟨rfl, Bool.eq_false_iff.mpr hreserved⟩
      | some fault =>
        cases fault with
        | before =>
          obtain rfl := Option.some.inj hnext
          have hbefore := h.calls id
          rw [hcall] at hbefore
          obtain ⟨hid, hunasked, hunopened⟩ := hbefore
          exact h.goTo ⟨hid, .inr ⟨h.unstored hunasked, hunopened⟩⟩ (by rw [hcall]; nofun)
        | after =>
          simp only [hcall] at hok
          exact h.reserve hcall hnext (.inr ⟨rfl, hok⟩)
    · cases hnext
  | add id n =>
    unfold AskWorld.next at hnext
    dsimp only at hnext
    split at hnext
    · next call hcall =>
      obtain ⟨s₁, hrun, rfl⟩ := Option.map_eq_some_iff.mp hnext
      exact h.add hcall hrun
    · cases hnext
  | stepAdd id now fault =>
    cases hstage : s.calls id with
    | adding call n =>
      cases fault with
      | none =>
        unfold AskWorld.next at hnext
        simp only [hstage] at hnext
        obtain ⟨s₁, hrun, rfl⟩ := Option.map_eq_some_iff.mp hnext
        exact h.stepAdd hstage hrun
      | some fault =>
        unfold Tidy at hok
        simp only [hstage] at hok
        exact h.addFails hstage hok.1 hok.2 hnext
    | _ =>
      unfold AskWorld.next at hnext
      simp only [hstage] at hnext
      cases hnext
  | deliver id delivery =>
    unfold AskWorld.next at hnext
    dsimp only at hnext
    split at hnext
    · next call hcall =>
      obtain rfl := Option.some.inj hnext
      exact h.deliver hcall
    · cases hnext
  | wait id reply =>
    unfold AskWorld.next at hnext
    dsimp only at hnext
    split at hnext
    · next call hcall =>
      have hbefore := h.calls id
      rw [hcall] at hbefore
      have hadding : ∀ call n, s.calls id ≠ .adding call n := by
        rw [hcall]
        nofun
      cases reply with
      | answered =>
        obtain ⟨-, hnext⟩ := Option.ite_none_left_eq_some.mp hnext
        obtain rfl := Option.some.inj hnext
        exact h.goTo hbefore hadding
      | failed =>
        obtain rfl := Option.some.inj hnext
        exact h.goTo ⟨hbefore.1, .inl ⟨hbefore.2, hok⟩⟩ hadding
      | _ =>
        obtain rfl := Option.some.inj hnext
        exact h.goTo hbefore hadding
    · cases hnext
  | prune id n =>
    unfold AskWorld.next at hnext
    dsimp only at hnext
    split at hnext
    · next call waits hcall =>
      obtain ⟨s₁, hrun, rfl⟩ := Option.map_eq_some_iff.mp hnext
      exact h.prune hcall hrun
    · cases hnext
  | stepPrune id now =>
    unfold AskWorld.next at hnext
    dsimp only at hnext
    split at hnext
    · next call n waits hcall =>
      split at hnext
      · next resolver htask =>
        obtain ⟨s₁, hrun, rfl⟩ := Option.map_eq_some_iff.mp hnext
        exact h.stepPrune hcall htask hrun hok
      · cases hnext
    · cases hnext
  | other a =>
    obtain ⟨hother, hrun⟩ := Option.ite_none_right_eq_some.mp hnext
    exact h.other hother hrun

end AskInv

/-! ## Every run -/

/-- Nothing is left of a question: it is not pending, it holds no slot of the open index, and the
count of its group is that of other questions at most. An answer that was recorded is there. -/
structure LeftNothing (s : AskWorld) (request : InteractionRequest) : Prop where
  notPending : s.world.isPending request.interactionId = false
  notOpen : s.Unopened request.interactionId
  notCounted : ∀ count, s.world.readCount request.groupId = some count →
    count ≤ s.stored.countP fun other => other.groupId = request.groupId &&
      decide (other.interactionId ≠ request.interactionId) &&
        s.world.resolutions other.interactionId = 0
  recorded : 0 < s.world.answered request.interactionId →
    s.world.pruned request.interactionId = 0 ∧
      (s.world.keys.replies request.interactionId).length = 1 ∧
      ∀ state, s.world.keys.states request.interactionId = some state →
        state.value.status = .answered

namespace AskInv

theorem leftNothing (h : AskInv idleTtl limit s) (hraised : s.calls id = .raised call) :
    call.request.interactionId = id ∧ LeftNothing s call.request := by
  have hok := h.calls id
  rw [hraised] at hok
  obtain ⟨rfl, hok⟩ := hok
  have hpos : ∀ request ∈ s.stored, request.interactionId = call.request.interactionId →
      0 < s.world.resolutions call.request.interactionId := by
    intro request hmem hid
    rcases hok with ⟨-, hpos⟩ | ⟨hunstored, -⟩
    · exact hpos
    · exact absurd hid (hunstored request hmem)
  refine ⟨rfl, ?_, ?_, fun count hread => ?_, fun hanswered => ?_⟩
  · rw [← Bool.not_eq_true, World.isPending_iff]
    rintro ⟨state, hstate, -, hstatus⟩
    have hmem := h.store.states _ state hstate
    have hresolved := h.count.resolved _ state
      (hpos _ hmem (h.count.states _ state hstate).2) hstate
    rw [hstatus] at hresolved
    cases hresolved
  · rcases hok with ⟨hmem, hpos⟩ | ⟨-, hunopened⟩
    · unfold AskWorld.Unopened
      cases hscore : s.world.keys.openIndex.score? call.request.interactionId with
      | none => rfl
      | some score =>
        rw [h.store.opened _ score hscore] at hpos
        exact absurd hpos (Nat.lt_irrefl 0)
    · exact hunopened
  · obtain ⟨entry, hentry, -, rfl⟩ := Expiring.read_eq_some.mp hread
    refine (h.store.counts _ entry hentry).trans (Int.ofNat_le.mpr ?_)
    refine List.countP_mono_left fun other hmem hcounted => ?_
    simp only [Bool.and_eq_true, decide_eq_true_eq] at hcounted ⊢
    refine ⟨⟨hcounted.1, fun hid => ?_⟩, hcounted.2⟩
    have hresolved := hpos other hmem hid
    rw [← hid, hcounted.2] at hresolved
    exact Nat.lt_irrefl 0 hresolved
  · have honce := h.count.once call.request.interactionId
    have hreplies := h.count.replies call.request.interactionId
    unfold World.resolutions at honce
    refine ⟨by omega, by omega, fun state hstate => ?_⟩
    refine h.count.resolved _ state ?_ hstate
    exact hanswered.trans_le (Nat.le_add_right _ _)

end AskInv

/-- In every run of tidy steps, nothing is left of the question of a call that has raised. -/
theorem nothing_left (h : (tidyAskUser idleTtl limit).Reachable s)
    (hraised : s.calls id = .raised call) :
    call.request.interactionId = id ∧ LeftNothing s call.request := by
  have hinv : AskInv idleTtl limit s := by
    refine h.invariant (p := fun s => AskInv idleTtl limit s) ?_ ?_
    · rintro s rfl
      exact .start
    · rintro s a s' hinv ⟨hok, hnext⟩
      exact hinv.next hok hnext
  exact hinv.leftNothing hraised

instance (limit : Option ℕ) (s : AskWorld) (a : AskLabel) : Decidable (Tidy limit s a) := by
  unfold Tidy AskWorld.Unopened
  split
  · split <;> exact inferInstance
  · split <;> exact inferInstance
  · exact inferInstance
  · exact inferInstance
  · exact .isTrue trivial

/-- `question` is asked and stored. -/
def questionStored (channel : Bool) : List AskLabel :=
  [.ask ⟨question, channel⟩, .add 7 0] ++ List.replicate 3 (.stepAdd 7 0 none)

/-- Its channel does not deliver the question: it is pruned. -/
theorem nothing_left_undelivered : ∃ s, (tidyAskUser 86400000 none).Reachable s ∧
    s.calls 7 = .raised ⟨question, true⟩ ∧ s.world.pruned 7 = 1 ∧ LeftNothing s question := by
  obtain ⟨s, hs, hp⟩ := System.Reachable.of_foldlM (S := tidyAskUser 86400000 none)
    (f := System.guarded (AskWorld.next 86400000 none) fun s a => decide (Tidy none s a))
    (s := .start)
    (p := fun s => s.calls 7 == .raised ⟨question, true⟩ && s.world.pruned 7 == 1)
    (l := questionStored true ++ [.deliver 7 .failed, .prune 7 1] ++
      List.replicate 4 (.stepPrune 7 0))
    (fun s a s' h => ⟨of_decide_eq_true (System.step_of_guarded h).1,
      (System.step_of_guarded h).2⟩) rfl (by decide +kernel)
  simp only [Bool.and_eq_true, beq_iff_eq] at hp
  exact ⟨s, hs, hp.1, hp.2, (nothing_left hs hp.1).2⟩

/-- The wait for the reply fails and the question stays pending, open and counted; and where one
question is the most that may be open, the slot of a question that was never stored keeps the next
one out. -/
theorem left_behind :
    (∃ s, (askUser 86400000 none).Reachable s ∧ s.calls 7 = .raised ⟨question, false⟩ ∧
      s.world.isPending 7 = true ∧ ¬s.Unopened 7 ∧ s.world.readCount 1 = some 1 ∧
      ¬LeftNothing s question) ∧
    ∃ s, (askUser 86400000 (some 1)).Reachable s ∧ s.calls 7 = .raised ⟨question, false⟩ ∧
      s.stored = [] ∧ ¬s.Unopened 7 ∧ ¬LeftNothing s question ∧
      ∃ call : AskCall, s.calls 8 = .raised call := by
  refine ⟨?_, ?_⟩
  · obtain ⟨s, hs, hp⟩ := System.Reachable.of_foldlM (S := askUser 86400000 none)
      (f := AskWorld.next 86400000 none) (s := .start)
      (p := fun s => s.calls 7 == .raised ⟨question, false⟩ && s.world.isPending 7 &&
        s.world.keys.openIndex.score? 7 == some 3600000 && s.world.readCount 1 == some 1)
      (l := questionStored false ++ [.wait 7 .failed]) (fun _ _ _ h => h) rfl (by decide +kernel)
    simp only [Bool.and_eq_true, beq_iff_eq] at hp
    obtain ⟨⟨⟨hcall, hpending⟩, hopen⟩, hcount⟩ := hp
    refine ⟨s, hs, hcall, hpending, by rw [AskWorld.Unopened, hopen]; rintro ⟨⟩, hcount, fun h => ?_⟩
    have hnot : s.world.isPending 7 = false := h.notPending
    rw [hpending] at hnot
    cases hnot
  · obtain ⟨s, hs, hp⟩ := System.Reachable.of_foldlM (S := askUser 86400000 (some 1))
      (f := AskWorld.next 86400000 (some 1)) (s := .start)
      (p := fun s => s.calls 7 == .raised ⟨question, false⟩ && s.stored == [] &&
        s.world.keys.openIndex.score? 7 == some 3600000 &&
          s.calls 8 == .raised ⟨{ question with interactionId := 8 }, false⟩)
      (l := [.ask ⟨question, false⟩, .reserve 7 0 none, .add 7 0, .stepAdd 7 0 (some .before),
        .ask ⟨{ question with interactionId := 8 }, false⟩, .reserve 8 0 none])
      (fun _ _ _ h => h) rfl (by decide +kernel)
    simp only [Bool.and_eq_true, beq_iff_eq] at hp
    obtain ⟨⟨⟨hcall, hstored⟩, hopen⟩, hnext⟩ := hp
    have hnot : ¬s.Unopened 7 := by
      rw [AskWorld.Unopened, hopen]
      rintro ⟨⟩
    exact ⟨s, hs, hcall, hstored, hnot, fun h => hnot h.notOpen, _, hnext⟩

end TaiSkeleton.Interactions
