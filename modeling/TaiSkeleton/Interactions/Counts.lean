import TaiSkeleton.Interactions.Keys
import TaiSkeleton.Lib.Counting

/-!
# The count of a group's pending questions

The count of a group is taken up by every `add` and down by every call that resolves a question,
and its expiry is set with that of the state hashes, to no earlier time. So it covers the pending
questions of the group in every state, and is only deleted when there is none left. A call that
reads the status of a question and the count one after the other may all the same find the count
gone: another call has resolved the question, or both keys have run out, in between.
-/

namespace TaiSkeleton.Interactions

open Lib Keys

variable {idleTtl : Time} {s s' : World} {k : Keys} {id : InteractionId} {group : GroupId}

/-! ## The invariant -/

namespace World

/-- The question is pending. -/
def isPending (s : World) (id : InteractionId) : Bool :=
  (s.readState id).any (·.status = .pending)

/-- How many questions of a group are pending. -/
def pendingIn (s : World) (group : GroupId) : ℕ :=
  s.asked.countP fun request => request.groupId = group && s.isPending request.interactionId

/-- How many calls on a question have returned `True`. -/
def resolutions (s : World) (id : InteractionId) : ℕ := s.answered id + s.pruned id

end World

/-- What holds of the keys. -/
structure KeysInv (idleTtl : Time) (s : World) : Prop where
  ids : (s.asked.map InteractionRequest.interactionId).Nodup
  states : ∀ id state, s.keys.states id = some state →
    state.value.request ∈ s.asked ∧ state.value.request.interactionId = id
  streams : ∀ group stream, s.keys.streams group = some stream →
    ∀ request ∈ stream.value, request ∈ s.asked ∧ request.groupId = group
  /-- A pending question does not outlive its group's count. -/
  covered : ∀ id state, s.keys.states id = some state → state.value.status = .pending →
    s.clock ≤ state.expiresAt → ∃ count, s.keys.counts state.value.request.groupId = some count ∧
      state.expiresAt ≤ count.expiresAt
  sound : ∀ group count, s.keys.counts group = some count → s.clock ≤ count.expiresAt →
    (s.pendingIn group : ℤ) ≤ count.value
  bound : ∀ group count, s.keys.counts group = some count → count.expiresAt ≤ s.clock + idleTtl
  once : ∀ id, s.resolutions id ≤ 1
  resolved : ∀ id state, 0 < s.resolutions id → s.keys.states id = some state →
    state.value.status = .answered
  replies : ∀ id, (s.keys.replies id).length = s.answered id
  known : ∀ id, 0 < s.resolutions id → ∃ request ∈ s.asked, request.interactionId = id

/-- What a call relies on that resolves a question. -/
def Watched (s : World) (id : InteractionId) (group : GroupId) : Stage → Prop
  | .watching => True
  | .readingStatus watch => watch.stateWrites ≤ s.keys.stateWrites id ∧
    watch.countWrites ≤ s.keys.countWrites group
  | .readingSensitive watch | .readingCount watch _ => watch.stateWrites ≤ s.keys.stateWrites id ∧
    watch.countWrites ≤ s.keys.countWrites group ∧ (watch.stateWrites = s.keys.stateWrites id →
      ∃ state, s.keys.states id = some state ∧ state.value.status = .pending)
  | .executing watch _ remaining => watch.stateWrites ≤ s.keys.stateWrites id ∧
    watch.countWrites ≤ s.keys.countWrites group ∧ (watch.stateWrites = s.keys.stateWrites id →
      ∃ state, s.keys.states id = some state ∧ state.value.status = .pending) ∧
    (watch.countWrites = s.keys.countWrites group →
      ∃ count, s.keys.counts group = some count ∧ count.value - 1 = remaining)

/-- The question has been asked in the group. -/
def Asked (s : World) (id : InteractionId) (group : GroupId) : Prop :=
  ∃ request ∈ s.asked, request.interactionId = id ∧ request.groupId = group

/-- What a task relies on. -/
def TaskOk (s : World) : Task → Prop
  | .adding request _ stage => request ∈ s.asked ∧
    s.keys.states request.interactionId = none ∧ s.resolutions request.interactionId = 0 ∧
    match stage with
    | .listing => True
    | .purging siblings | .committing siblings => ∀ id ∈ siblings, Asked s id request.groupId
  | .resolving resolver => Asked s resolver.id resolver.group ∧
    Watched s resolver.id resolver.group resolver.stage
  | .backlog _ groups _ stage =>
    match stage with
    | .inspecting entries => ∀ request ∈ entries, groups.head? = some request.groupId ∧
      request ∈ s.asked
    | .pruning overdue stage =>
      (∀ request ∈ overdue, groups.head? = some request.groupId ∧ request ∈ s.asked) ∧
      ∀ request ∈ overdue.head?, Watched s request.interactionId request.groupId stage
    | _ => True
  | _ => True

structure CountInv (idleTtl : Time) (s : World) : Prop extends KeysInv idleTtl s where
  tasks : ∀ n, TaskOk s (s.tasks n)
  /-- A question is asked once. -/
  apart : ∀ n n' request request' reserved reserved' stage stage',
    s.tasks n = .adding request reserved stage → s.tasks n' = .adding request' reserved' stage' →
    request.interactionId = request'.interactionId → n = n'

theorem World.isPending_iff : s.isPending id = true ↔ ∃ state, s.keys.states id = some state ∧
    s.clock ≤ state.expiresAt ∧ state.value.status = .pending := by
  simp only [isPending, readState, Option.any_eq_true, decide_eq_true_eq, Expiring.read_eq_some]
  constructor
  · rintro ⟨_, ⟨state, hstate, hlive, rfl⟩, hstatus⟩
    exact ⟨state, hstate, hlive, hstatus⟩
  · rintro ⟨state, hstate, hlive, hstatus⟩
    exact ⟨_, ⟨state, hstate, hlive, rfl⟩, hstatus⟩

theorem World.pendingIn_mono (hasked : s'.asked = s.asked)
    (h : ∀ request ∈ s.asked, request.groupId = group →
      s'.isPending request.interactionId = true → s.isPending request.interactionId = true) :
    s'.pendingIn group ≤ s.pendingIn group := by
  unfold pendingIn
  rw [hasked]
  refine List.countP_mono_left fun request hmem hpending => ?_
  simp only [Bool.and_eq_true, decide_eq_true_eq] at hpending ⊢
  exact ⟨hpending.1, h request hmem hpending.1 hpending.2⟩

namespace KeysInv

/-- A question has one request. -/
theorem eq_of_id (h : KeysInv idleTtl s) {request request' : InteractionRequest}
    (hmem : request ∈ s.asked) (hmem' : request' ∈ s.asked)
    (hid : request.interactionId = request'.interactionId) : request = request' :=
  List.inj_on_of_nodup_map h.ids hmem hmem' hid

/-- Where a question of a group is pending, its count is there. -/
theorem count_of_pending (h : KeysInv idleTtl s) {request : InteractionRequest}
    (hmem : request ∈ s.asked) (hpending : s.isPending request.interactionId = true) :
    ∃ count, s.keys.counts request.groupId = some count ∧ s.clock ≤ count.expiresAt := by
  obtain ⟨state, hstate, hlive, hstatus⟩ := World.isPending_iff.mp hpending
  obtain ⟨hasked, hid⟩ := h.states _ _ hstate
  obtain ⟨count, hcount, hle⟩ := h.covered _ _ hstate hstatus hlive
  rw [h.eq_of_id hasked hmem hid] at hcount
  exact ⟨count, hcount, hlive.trans hle⟩

/-- The count of a group, read as zero where it is not there, covers its pending questions. -/
theorem pendingIn_le (h : KeysInv idleTtl s) (group : GroupId) :
    (s.pendingIn group : ℤ) ≤ (s.readCount group).getD 0 := by
  cases hread : s.readCount group with
  | some count =>
    obtain ⟨entry, hcount, hlive, rfl⟩ := Expiring.read_eq_some.mp hread
    exact h.sound group entry hcount hlive
  | none =>
    have hzero : s.pendingIn group = 0 := by
      refine List.countP_eq_zero.mpr fun request hmem hpending => ?_
      simp only [Bool.and_eq_true, decide_eq_true_eq] at hpending
      obtain ⟨count, hcount, hlive⟩ := h.count_of_pending hmem hpending.2
      rw [hpending.1] at hcount
      have hsome := Expiring.read_eq_some.mpr ⟨count, hcount, hlive, rfl⟩
      rw [World.readCount, hsome] at hread
      cases hread
    simp [hzero]

theorem states_of_fresh (h : KeysInv idleTtl s) {request : InteractionRequest}
    (hfresh : ∀ asked ∈ s.asked, asked.interactionId ≠ request.interactionId) :
    s.keys.states request.interactionId = none := by
  cases hstate : s.keys.states request.interactionId with
  | none => rfl
  | some state =>
    obtain ⟨hmem, hid⟩ := h.states _ _ hstate
    exact absurd hid (hfresh _ hmem)

/-- A command on the indexes. -/
theorem sameData (h : KeysInv idleTtl s) (hkeys : SameData s.keys s'.keys)
    (hclock : s'.clock = s.clock) (hasked : s'.asked = s.asked)
    (hanswered : s'.answered = s.answered) (hpruned : s'.pruned = s.pruned) :
    KeysInv idleTtl s' := by
  have hpendingIn : ∀ group, s'.pendingIn group = s.pendingIn group := by
    intro group
    simp only [World.pendingIn, World.isPending, World.readState, hkeys.states, hclock, hasked]
  have hresolutions : s'.resolutions = s.resolutions := by
    unfold World.resolutions
    rw [hanswered, hpruned]
  refine ⟨hasked ▸ h.ids, ?_, ?_, ?_, ?_, ?_, hresolutions ▸ h.once, ?_, ?_, ?_⟩
  · rw [hkeys.states, hasked]
    exact h.states
  · rw [hkeys.streams, hasked]
    exact h.streams
  · rw [hkeys.states, hkeys.counts, hclock]
    exact h.covered
  · intro group count hcount hlive
    rw [hpendingIn]
    exact h.sound group count (hkeys.counts ▸ hcount) (hclock ▸ hlive)
  · rw [hkeys.counts, hclock]
    exact h.bound
  · rw [hresolutions, hkeys.states]
    exact h.resolved
  · rw [hkeys.replies, hanswered]
    exact h.replies
  · rw [hresolutions, hasked]
    exact h.known

/-- Time passes. -/
theorem tick (h : KeysInv idleTtl s) {clock : Time} (hle : s.clock ≤ clock) :
    KeysInv idleTtl { s with clock := clock } := by
  refine ⟨h.ids, h.states, h.streams, fun id state hstate hstatus hlive =>
    h.covered id state hstate hstatus (hle.trans hlive), fun group count hcount hlive => ?_,
    fun group count hcount => (h.bound group count hcount).trans (Int.add_le_add_right hle _),
    h.once, h.resolved, h.replies, h.known⟩
  refine le_trans ?_ (h.sound group count hcount (hle.trans hlive))
  refine Int.ofNat_le.mpr (World.pendingIn_mono rfl fun request _ _ hpending => ?_)
  obtain ⟨state, hstate, hlive', hstatus⟩ := World.isPending_iff.mp hpending
  exact World.isPending_iff.mpr ⟨state, hstate, hle.trans hlive', hstatus⟩

/-- A question is asked for the first time. -/
theorem ask (h : KeysInv idleTtl s) {request : InteractionRequest}
    (hfresh : ∀ asked ∈ s.asked, asked.interactionId ≠ request.interactionId) :
    KeysInv idleTtl { s with asked := request :: s.asked } := by
  have hnone := h.states_of_fresh hfresh
  refine ⟨?_, fun id state hstate => ?_, fun group stream hstream request' hmem => ?_, h.covered,
    fun group count hcount hlive => ?_, h.bound, h.once, h.resolved, h.replies, fun id hpos => ?_⟩
  · refine List.nodup_cons.mpr ⟨fun hmem => ?_, h.ids⟩
    obtain ⟨asked, hasked, hid⟩ := List.mem_map.mp hmem
    exact hfresh asked hasked hid
  · obtain ⟨hmem, hid⟩ := h.states id state hstate
    exact ⟨List.mem_cons_of_mem _ hmem, hid⟩
  · obtain ⟨hmem, hgroup⟩ := h.streams group stream hstream request' hmem
    exact ⟨List.mem_cons_of_mem _ hmem, hgroup⟩
  · have hnot : ({ s with asked := request :: s.asked } : World).isPending request.interactionId =
        false := by
      by_contra hpending
      obtain ⟨state, hstate, -⟩ := World.isPending_iff.mp (by simpa using hpending)
      rw [hnone] at hstate
      cases hstate
    refine le_trans (le_of_eq ?_) (h.sound group count hcount hlive)
    unfold World.pendingIn
    rw [List.countP_cons_of_neg (by rw [hnot]; simp)]
    rfl
  · obtain ⟨asked, hmem, hid⟩ := h.known id hpos
    exact ⟨asked, List.mem_cons_of_mem _ hmem, hid⟩

/-- A state hash after an `add` is the new one, as it was, or refreshed. -/
theorem states_of_added {request : InteractionRequest} {siblings : List InteractionId}
    {new : Expiring InteractionState} (h : KeysInv idleTtl s)
    (hadded : Added s.clock (s.clock + idleTtl) request siblings s.keys k)
    (hsiblings : ∀ id ∈ siblings, Asked s id request.groupId) (hnew : k.states id = some new) :
    (id = request.interactionId ∧ new.value.request = request ∧
        new.expiresAt = s.clock + idleTtl) ∨
      (id ≠ request.interactionId ∧ s.keys.states id = some new) ∨
      (id ≠ request.interactionId ∧ new.expiresAt = s.clock + idleTtl ∧
        ∃ old, s.keys.states id = some old ∧ s.clock ≤ old.expiresAt ∧ old.value = new.value ∧
          new.value.request.groupId = request.groupId) := by
  obtain ⟨response, hstate⟩ := hadded.state
  by_cases hid : id = request.interactionId
  · subst hid
    obtain rfl := Option.some.inj (hstate.symm.trans hnew)
    exact .inl ⟨rfl, rfl, rfl⟩
  · obtain hsame | ⟨hsibling, state, hread, hset⟩ := hadded.states id hid
    · exact .inr (.inl ⟨hid, hsame ▸ hnew⟩)
    · obtain rfl := Option.some.inj (hset.symm.trans hnew)
      obtain ⟨old, hold, hlive, rfl⟩ := Expiring.read_eq_some.mp hread
      refine .inr (.inr ⟨hid, rfl, old, hold, hlive, rfl, ?_⟩)
      obtain ⟨request', hmem', hid', hgroup⟩ := hsiblings id hsibling
      obtain ⟨hasked, hold'⟩ := h.states id old hold
      rw [h.eq_of_id hasked hmem' (hold'.trans hid'.symm)]
      exact hgroup

/-- A question is added. -/
theorem added {request : InteractionRequest} {siblings : List InteractionId}
    (h : KeysInv idleTtl s) (hadded : Added s.clock (s.clock + idleTtl) request siblings s.keys k)
    (hmem : request ∈ s.asked) (hnone : s.keys.states request.interactionId = none)
    (hzero : s.resolutions request.interactionId = 0)
    (hsiblings : ∀ id ∈ siblings, Asked s id request.groupId) :
    KeysInv idleTtl { s with keys := k } := by
  have hstates := fun id new (hnew : k.states id = some new) =>
    h.states_of_added hadded hsiblings hnew
  have hpending : ∀ asked ∈ s.asked, ({ s with keys := k } : World).isPending asked.interactionId =
      true → s.isPending asked.interactionId = true ∨ asked = request := by
    intro asked hasked hpending
    obtain ⟨new, hnew, hlive, hstatus⟩ := World.isPending_iff.mp hpending
    obtain ⟨hid, -⟩ | ⟨-, hold⟩ | ⟨-, -, old, hold, hlive', hvalue, -⟩ := hstates _ new hnew
    · exact .inr (h.eq_of_id hasked hmem hid)
    · exact .inl (World.isPending_iff.mpr ⟨new, hold, hlive, hstatus⟩)
    · exact .inl (World.isPending_iff.mpr ⟨old, hold, hlive', hvalue ▸ hstatus⟩)
  refine ⟨h.ids, fun id new hnew => ?_, fun group stream hstream request' hmem' => ?_,
    fun id new hnew hstatus hlive => ?_, fun group count hcount hlive => ?_,
    fun group count hcount => ?_, h.once, fun id new hpos hnew => ?_, ?_, h.known⟩
  · obtain ⟨rfl, hrequest, -⟩ | ⟨-, hold⟩ | ⟨-, -, old, hold, -, hvalue, -⟩ := hstates id new hnew
    · exact hrequest.symm ▸ ⟨hmem, rfl⟩
    · exact h.states id new hold
    · exact hvalue ▸ h.states id old hold
  · change k.streams group = some stream at hstream
    by_cases hgroup : group = request.groupId
    · subst hgroup
      rw [hadded.stream] at hstream
      obtain rfl := Option.some.inj hstream
      rcases List.mem_append.mp hmem' with hold | hnew
      · cases hread : Expiring.read s.clock (s.keys.streams request.groupId) with
        | none =>
          rw [hread] at hold
          cases hold
        | some entries =>
          rw [hread] at hold
          obtain ⟨stream, hstream, -, rfl⟩ := Expiring.read_eq_some.mp hread
          exact h.streams _ stream hstream request' hold
      · obtain rfl := List.mem_singleton.mp hnew
        exact ⟨hmem, rfl⟩
    · rw [hadded.streams group hgroup] at hstream
      exact h.streams group stream hstream request' hmem'
  · show ∃ count, k.counts _ = some count ∧ _
    obtain ⟨rfl, hrequest, hexpiry⟩ | ⟨-, hold⟩ | ⟨-, hexpiry, -, -, -, -, hgroup⟩ :=
      hstates id new hnew
    · rw [hrequest]
      exact ⟨_, hadded.count, le_of_eq hexpiry⟩
    · obtain ⟨count, hcount, hle⟩ := h.covered id new hold hstatus hlive
      by_cases hgroup : new.value.request.groupId = request.groupId
      · rw [hgroup] at hcount ⊢
        exact ⟨_, hadded.count, hle.trans (h.bound _ count hcount)⟩
      · rw [hadded.counts _ hgroup]
        exact ⟨count, hcount, hle⟩
    · rw [hgroup]
      exact ⟨_, hadded.count, le_of_eq hexpiry⟩
  · change k.counts group = some count at hcount
    by_cases hgroup : group = request.groupId
    · subst hgroup
      rw [hadded.count] at hcount
      obtain rfl := Option.some.inj hcount
      have hle := h.pendingIn_le request.groupId
      have hsucc : ({ s with keys := k } : World).pendingIn request.groupId ≤
          s.pendingIn request.groupId + 1 := by
        refine countP_le_succ (a := request) (List.Nodup.of_map _ h.ids) fun asked hasked hp => ?_
        simp only [Bool.and_eq_true, decide_eq_true_eq] at hp ⊢
        obtain hbefore | rfl := hpending asked hasked hp.2
        · exact .inl ⟨hp.1, hbefore⟩
        · exact .inr rfl
      unfold World.readCount at hle
      show _ ≤ (Expiring.read s.clock (s.keys.counts request.groupId)).getD 0 + 1
      omega
    · rw [hadded.counts group hgroup] at hcount
      refine le_trans (Int.ofNat_le.mpr ?_) (h.sound group count hcount hlive)
      refine World.pendingIn_mono rfl fun asked hasked hgroup' hp => ?_
      obtain hbefore | rfl := hpending asked hasked hp
      · exact hbefore
      · exact absurd hgroup'.symm hgroup
  · change k.counts group = some count at hcount
    by_cases hgroup : group = request.groupId
    · subst hgroup
      rw [hadded.count] at hcount
      obtain rfl := Option.some.inj hcount
      exact le_refl _
    · rw [hadded.counts group hgroup] at hcount
      exact h.bound group count hcount
  · change 0 < s.resolutions id at hpos
    obtain ⟨rfl, -⟩ | ⟨-, hold⟩ | ⟨-, -, old, hold, -, hvalue, -⟩ := hstates id new hnew
    · omega
    · exact h.resolved id new hpos hold
    · exact hvalue ▸ h.resolved id old hpos hold
  · show ∀ id, (k.replies id).length = s.answered id
    rw [hadded.replies]
    exact h.replies

/-- A question is resolved. -/
theorem executed {remaining : ℤ} {state : Expiring InteractionState} {count : Expiring ℤ}
    (resolution : Resolution) (sensitive : Bool) (h : KeysInv idleTtl s)
    (hasked : Asked s id group) (hstate : s.keys.states id = some state)
    (hlive : s.clock ≤ state.expiresAt) (hstatus : state.value.status = .pending)
    (hcount : s.keys.counts group = some count) (hlive' : s.clock ≤ count.expiresAt)
    (hremaining : count.value - 1 = remaining) :
    KeysInv idleTtl (s.execute resolution id group sensitive remaining state count) ∧
      ((s.execute resolution id group sensitive remaining state count).keys.counts group = none →
        (s.execute resolution id group sensitive remaining state count).pendingIn group = 0) := by
  have hdone := resolved_execute (s := s) resolution id group sensitive remaining state count
  generalize hs' : s.execute resolution id group sensitive remaining state count = s' at hdone ⊢
  have hclock : s'.clock = s.clock := by
    subst hs'
    cases resolution <;> rfl
  have hsame : s'.asked = s.asked := by
    subst hs'
    cases resolution <;> rfl
  have hresolutions : ∀ id', s'.resolutions id' =
      if id' = id then s.resolutions id + 1 else s.resolutions id' := by
    intro id'
    subst hs'
    cases resolution <;> simp only [World.execute, World.resolutions, Function.update_apply] <;>
      split_ifs with hid <;> first | rfl | (subst hid; omega)
  have hreplies : ∀ id', (s'.keys.replies id').length = s'.answered id' := by
    intro id'
    have hbefore := h.replies id'
    subst hs'
    cases resolution with
    | prune =>
      unfold World.execute Keys.prunePending countDown
      split_ifs <;> exact hbefore
    | answer response ticketTtl =>
      have hpushed :
          (Function.update s.keys.replies id (s.keys.replies id ++ [response]) id').length
          = Function.update s.answered id (s.answered id + 1) id' := by
        simp only [Function.update_apply]
        split_ifs with hid
        · subst hid
          rw [List.length_append, hbefore]
          rfl
        · exact hbefore
      unfold World.execute Keys.recordAnswer countDown
      dsimp only
      split_ifs <;> exact hpushed
  obtain ⟨request, hmem, rfl, rfl⟩ := hasked
  have hrequest : state.value.request = request := by
    obtain ⟨hmem', hid⟩ := h.states _ state hstate
    exact h.eq_of_id hmem' hmem hid
  have hwas : s.isPending request.interactionId = true :=
    World.isPending_iff.mpr ⟨state, hstate, hlive, hstatus⟩
  have hzero : s.resolutions request.interactionId = 0 := by
    by_contra hne
    have hanswered := h.resolved _ state (Nat.pos_of_ne_zero hne) hstate
    rw [hstatus] at hanswered
    cases hanswered
  have hpending : ∀ asked ∈ s.asked, s'.isPending asked.interactionId = true →
      s.isPending asked.interactionId = true ∧ asked ≠ request := by
    intro asked hasked hp
    obtain ⟨new, hnew, hnewLive, hnewStatus⟩ := World.isPending_iff.mp hp
    have hne : asked.interactionId ≠ request.interactionId := by
      intro heq
      rw [heq] at hnew
      rw [(hdone.state new hnew).1] at hnewStatus
      cases hnewStatus
    rw [hdone.states _ hne] at hnew
    refine ⟨World.isPending_iff.mpr ⟨new, hnew, hclock ▸ hnewLive, hnewStatus⟩, ?_⟩
    rintro rfl
    exact hne rfl
  have hfewer : s'.pendingIn request.groupId + 1 ≤ s.pendingIn request.groupId := by
    unfold World.pendingIn
    rw [hsame]
    refine countP_succ_le hmem (by simp [hwas]) fun asked hasked hp => ?_
    simp only [Bool.and_eq_true, decide_eq_true_eq] at hp ⊢
    obtain ⟨hbefore, hne⟩ := hpending asked hasked hp.2
    exact ⟨⟨hp.1, hbefore⟩, hne⟩
  have hle := h.sound _ count hcount hlive'
  have hempty : s'.keys.counts request.groupId = none → s'.pendingIn request.groupId = 0 := by
    intro hgone
    rw [hdone.count] at hgone
    split_ifs at hgone with hzero'
    omega
  refine ⟨⟨hsame ▸ h.ids, fun id' new hnew => ?_, ?_, fun id' new hnew hnewStatus hnewLive => ?_,
    fun group' count' hcount' hlive'' => ?_, fun group' count' hcount' => ?_, fun id' => ?_,
    fun id' new hpos hnew => ?_, hreplies, fun id' hpos => ?_⟩, hempty⟩
  · rw [hsame]
    by_cases hid : id' = request.interactionId
    · subst hid
      rw [(hdone.state new hnew).2, hrequest]
      exact ⟨hmem, rfl⟩
    · exact h.states id' new (hdone.states id' hid ▸ hnew)
  · rw [hdone.streams, hsame]
    exact h.streams
  · have hid : id' ≠ request.interactionId := by
      rintro rfl
      rw [(hdone.state new hnew).1] at hnewStatus
      cases hnewStatus
    rw [hclock] at hnewLive
    have hnew' := hdone.states id' hid ▸ hnew
    obtain ⟨hasked', hid'⟩ := h.states id' new hnew'
    obtain ⟨old, hold, hexpiry⟩ := h.covered id' new hnew' hnewStatus hnewLive
    by_cases hgroup : new.value.request.groupId = request.groupId
    · rw [hgroup] at hold ⊢
      obtain rfl := Option.some.inj (hcount.symm.trans hold)
      cases hnone : s'.keys.counts request.groupId with
      | none =>
        -- the question would be a pending one of the group that is left
        have hno := List.countP_eq_zero.mp (hempty hnone) new.value.request (hsame ▸ hasked')
        refine absurd ?_ hno
        have hp : s'.isPending new.value.request.interactionId = true :=
          World.isPending_iff.mpr ⟨new, hid' ▸ hnew, hclock.symm ▸ hnewLive, hnewStatus⟩
        simp [hgroup, hp]
      | some count' =>
        rw [hdone.count] at hnone
        split_ifs at hnone
        obtain rfl := Option.some.inj hnone
        exact ⟨_, rfl, hexpiry⟩
    · rw [hdone.counts _ hgroup]
      exact ⟨old, hold, hexpiry⟩
  · rw [hclock] at hlive''
    by_cases hgroup : group' = request.groupId
    · subst hgroup
      rw [hdone.count] at hcount'
      split_ifs at hcount'
      obtain rfl := Option.some.inj hcount'
      show _ ≤ count.value - 1
      omega
    · rw [hdone.counts _ hgroup] at hcount'
      refine le_trans (Int.ofNat_le.mpr ?_) (h.sound group' count' hcount' hlive'')
      exact World.pendingIn_mono hsame fun asked hasked _ hp => (hpending asked hasked hp).1
  · rw [hclock]
    by_cases hgroup : group' = request.groupId
    · subst hgroup
      rw [hdone.count] at hcount'
      split_ifs at hcount'
      obtain rfl := Option.some.inj hcount'
      exact h.bound _ count hcount
    · rw [hdone.counts _ hgroup] at hcount'
      exact h.bound group' count' hcount'
  · rw [hresolutions]
    split_ifs
    · omega
    · exact h.once id'
  · rw [hresolutions] at hpos
    by_cases hid : id' = request.interactionId
    · subst hid
      exact (hdone.state new hnew).1
    · rw [if_neg hid] at hpos
      exact h.resolved id' new hpos (hdone.states id' hid ▸ hnew)
  · rw [hsame]
    by_cases hid : id' = request.interactionId
    · exact ⟨request, hmem, hid.symm⟩
    · rw [hresolutions, if_neg hid] at hpos
      exact h.known id' hpos

end KeysInv

/-! ## The steps -/

theorem Watched.mono {stage : Stage} (h : Watched s id group stage)
    (hgrows : Grows s.keys s'.keys) : Watched s' id group stage := by
  have hstate : ∀ writes, writes ≤ s.keys.stateWrites id →
      (writes = s.keys.stateWrites id →
        ∃ state, s.keys.states id = some state ∧ state.value.status = .pending) →
      writes = s'.keys.stateWrites id →
        ∃ state, s'.keys.states id = some state ∧ state.value.status = .pending := by
    intro writes hle hbefore heq
    have hgrown := hgrows.stateWrites id
    rw [hgrows.states id (by omega)]
    exact hbefore (by omega)
  have hcount : ∀ writes remaining, writes ≤ s.keys.countWrites group →
      (writes = s.keys.countWrites group →
        ∃ count, s.keys.counts group = some count ∧ count.value - 1 = remaining) →
      writes = s'.keys.countWrites group →
        ∃ count, s'.keys.counts group = some count ∧ count.value - 1 = remaining := by
    intro writes remaining hle hbefore heq
    have hgrown := hgrows.countWrites group
    rw [hgrows.counts group (by omega)]
    exact hbefore (by omega)
  cases stage with
  | watching => trivial
  | readingStatus watch =>
    exact ⟨h.1.trans (hgrows.stateWrites id), h.2.trans (hgrows.countWrites group)⟩
  | readingSensitive watch | readingCount watch sensitive =>
    exact ⟨h.1.trans (hgrows.stateWrites id), h.2.1.trans (hgrows.countWrites group),
      hstate _ h.1 h.2.2⟩
  | executing watch sensitive remaining =>
    exact ⟨h.1.trans (hgrows.stateWrites id), h.2.1.trans (hgrows.countWrites group),
      hstate _ h.1 h.2.2.1, hcount _ _ h.2.1 h.2.2.2⟩

theorem Asked.mono (h : Asked s id group) (hasked : ∀ request ∈ s.asked, request ∈ s'.asked) :
    Asked s' id group := by
  obtain ⟨request, hmem, hid⟩ := h
  exact ⟨request, hasked request hmem, hid⟩

theorem TaskOk.mono {task : Task} (h : TaskOk s task) (hgrows : Grows s.keys s'.keys)
    (hasked : ∀ request ∈ s.asked, request ∈ s'.asked)
    (hadding : ∀ request reserved stage, task = .adding request reserved stage →
      s'.keys.states request.interactionId = none ∧ s'.resolutions request.interactionId = 0) :
    TaskOk s' task := by
  cases task with
  | adding request reserved stage =>
    obtain ⟨hmem, -, -, hstage⟩ := h
    obtain ⟨hnone, hzero⟩ := hadding _ _ _ rfl
    refine ⟨hasked request hmem, hnone, hzero, ?_⟩
    cases stage with
    | listing => trivial
    | purging siblings | committing siblings =>
      exact fun id hmem => (hstage id hmem).mono hasked
  | resolving resolver => exact ⟨h.1.mono hasked, h.2.mono hgrows⟩
  | backlog now groups found stage =>
    cases stage with
    | inspecting entries =>
      exact fun request hmem => ⟨(h request hmem).1, hasked request (h request hmem).2⟩
    | pruning overdue stage =>
      exact ⟨fun request hmem => ⟨(h.1 request hmem).1, hasked request (h.1 request hmem).2⟩,
        fun request hmem => (h.2 request hmem).mono hgrows⟩
    | _ => trivial
  | _ => trivial

/-- What a command of a resolver leaves. -/
structure ResolveOk (idleTtl : Time) (s : World) (id : InteractionId) (group : GroupId)
    (done : World × Outcome) : Prop where
  keys : KeysInv idleTtl done.1
  grows : Grows s.keys done.1.keys
  tasks : done.1.tasks = s.tasks
  asked : done.1.asked = s.asked
  watched : ∀ stage, done.2 = .goesOn stage → Watched done.1 id group stage
  absent : ∀ id', s.keys.states id' = none → done.1.keys.states id' = none ∧
    done.1.resolutions id' = s.resolutions id'
  /-- A count is only deleted with the last pending question. -/
  dropped : ∀ group' count, s.keys.counts group' = some count →
    done.1.keys.counts group' = none → done.1.pendingIn group' = 0

theorem taskOk_pruneNext {now : Time} {groups : List GroupId}
    {found overdue : List InteractionRequest}
    (h : ∀ request ∈ overdue, groups.head? = some request.groupId ∧ request ∈ s.asked) :
    TaskOk s (World.pruneNext now groups found overdue) := by
  cases overdue with
  | nil => trivial
  | cons request overdue => exact ⟨h, fun _ _ => trivial⟩

theorem pruneNext_ne_adding {now : Time} {groups : List GroupId}
    {found overdue : List InteractionRequest} (request : InteractionRequest) (reserved : Bool)
    (stage : AddStage) :
    World.pruneNext now groups found overdue ≠ .adding request reserved stage := by
  cases overdue <;> exact fun heq => by cases heq

namespace CountInv

/-- A command of a resolver that writes nothing. -/
theorem resolveOk_of_read {outcome : Outcome} (h : CountInv idleTtl s)
    (hwatched : ∀ stage, outcome = .goesOn stage → Watched s id group stage) :
    ResolveOk idleTtl s id group (s, outcome) where
  keys := h.toKeysInv
  grows := .refl _
  tasks := rfl
  asked := rfl
  watched := hwatched
  absent _ hnone := ⟨hnone, rfl⟩
  dropped _ _ hsome hnone := by
    rw [hsome] at hnone
    cases hnone

theorem resolve {stage : Stage} (resolution : Resolution) (h : CountInv idleTtl s)
    (hasked : Asked s id group) (hwatched : Watched s id group stage) :
    ResolveOk idleTtl s id group (s.resolve resolution id group stage) := by
  cases stage with
  | watching =>
    refine h.resolveOk_of_read fun stage heq => ?_
    obtain rfl := Outcome.goesOn.inj heq
    exact ⟨le_refl _, le_refl _⟩
  | readingStatus watch =>
    simp only [World.resolve]
    split
    · exact h.resolveOk_of_read fun stage heq => by cases heq
    · rename_i state hread
      split_ifs with hstatus
      · exact h.resolveOk_of_read fun stage heq => by cases heq
      · obtain ⟨entry, hentry, -, rfl⟩ := Expiring.read_eq_some.mp hread
        have hpending : entry.value.status = .pending := by
          cases hcase : entry.value.status with
          | pending => rfl
          | answered => exact absurd hcase hstatus
        have hnext : watch.stateWrites = s.keys.stateWrites id →
            ∃ state, s.keys.states id = some state ∧ state.value.status = .pending :=
          fun _ => ⟨entry, hentry, hpending⟩
        cases resolution with
        | answer response ticketTtl =>
          refine h.resolveOk_of_read fun stage heq => ?_
          obtain rfl := Outcome.goesOn.inj heq
          exact ⟨hwatched.1, hwatched.2, hnext⟩
        | prune =>
          refine h.resolveOk_of_read fun stage heq => ?_
          obtain rfl := Outcome.goesOn.inj heq
          exact ⟨hwatched.1, hwatched.2, hnext⟩
  | readingSensitive watch =>
    refine h.resolveOk_of_read fun stage heq => ?_
    obtain rfl := Outcome.goesOn.inj heq
    exact hwatched
  | readingCount watch sensitive =>
    simp only [World.resolve]
    split
    · exact ⟨h.toKeysInv.sameData (.refl _) rfl rfl rfl rfl, .refl _, rfl, rfl,
        fun stage heq => (by cases heq), fun _ hnone => ⟨hnone, rfl⟩,
        fun _ _ hsome hnone => by rw [hsome] at hnone; cases hnone⟩
    · rename_i count hread
      refine h.resolveOk_of_read fun stage heq => ?_
      obtain rfl := Outcome.goesOn.inj heq
      obtain ⟨entry, hentry, -, rfl⟩ := Expiring.read_eq_some.mp hread
      exact ⟨hwatched.1, hwatched.2.1, hwatched.2.2, fun _ => ⟨entry, hentry, rfl⟩⟩
  | executing watch sensitive remaining =>
    simp only [World.resolve]
    split
    · rename_i state count hstate hcount
      split_ifs with hintact
      · obtain ⟨rfl, hlive, hlive'⟩ := hintact
        obtain ⟨-, -, hpending, hleft⟩ := hwatched
        obtain ⟨state', hstate', hstatus⟩ := hpending rfl
        obtain rfl := Option.some.inj (hstate.symm.trans hstate')
        obtain ⟨count', hcount', hremaining⟩ := hleft rfl
        obtain rfl := Option.some.inj (hcount.symm.trans hcount')
        obtain ⟨hkeys, hdropped⟩ := h.toKeysInv.executed resolution sensitive hasked hstate hlive
          hstatus hcount hlive' hremaining
        have hdone := resolved_execute (s := s) resolution id group sensitive remaining state count
        refine ⟨hkeys, hdone.grows, by cases resolution <;> rfl, by cases resolution <;> rfl,
          fun stage heq => (by cases heq), fun id' hnone => ?_, fun group' count' hsome hnone => ?_⟩
        · have hid : id' ≠ id := by
            rintro rfl
            rw [hstate] at hnone
            cases hnone
          refine ⟨(hdone.states id' hid).trans hnone, ?_⟩
          cases resolution <;>
            simp [World.execute, World.resolutions, Function.update_of_ne hid]
        · by_cases hgroup : group' = group
          · subst hgroup
            exact hdropped hnone
          · rw [hdone.counts group' hgroup, hsome] at hnone
            cases hnone
      · refine h.resolveOk_of_read fun stage heq => ?_
        obtain rfl := Outcome.goesOn.inj heq
        trivial
    · refine h.resolveOk_of_read fun stage heq => ?_
      obtain rfl := Outcome.goesOn.inj heq
      trivial

/-- A task goes on. -/
theorem goOn {n : ℕ} (task : Task) (h : CountInv idleTtl s) (hkeys : KeysInv idleTtl s')
    (hgrows : Grows s.keys s'.keys) (hasked : ∀ request ∈ s.asked, request ∈ s'.asked)
    (htasks : s'.tasks = Function.update s.tasks n task)
    (habsent : ∀ n' request reserved stage, n' ≠ n → s.tasks n' = .adding request reserved stage →
      s'.keys.states request.interactionId = none ∧ s'.resolutions request.interactionId = 0)
    (hok : TaskOk s' task)
    (hadding : ∀ request reserved stage, task = .adding request reserved stage →
      (∃ reserved' stage', s.tasks n = .adding request reserved' stage') ∨
        ∀ asked ∈ s.asked, asked.interactionId ≠ request.interactionId) : CountInv idleTtl s' := by
  refine ⟨hkeys, fun n' => ?_, ?_⟩
  · rw [htasks, Function.update_apply]
    split_ifs with hn
    · exact hok
    · exact (h.tasks n').mono hgrows hasked fun request reserved stage heq =>
        habsent n' request reserved stage hn heq
  · -- a task that adds is one of before, or asks a new question
    have hbefore : ∀ n' request reserved stage, s'.tasks n' = .adding request reserved stage →
        (∃ reserved' stage', s.tasks n' = .adding request reserved' stage') ∨
          n' = n ∧ ∀ asked ∈ s.asked, asked.interactionId ≠ request.interactionId := by
      intro n' request reserved stage heq
      rw [htasks, Function.update_apply] at heq
      split_ifs at heq with hn
      · obtain hold | hnew := hadding request reserved stage heq
        · exact .inl (hn ▸ hold)
        · exact .inr ⟨hn, hnew⟩
      · exact .inl ⟨reserved, stage, heq⟩
    have hmem : ∀ n' request reserved stage, s.tasks n' = .adding request reserved stage →
        request ∈ s.asked := by
      intro n' request reserved stage heq
      have hok' := h.tasks n'
      rw [heq] at hok'
      exact hok'.1
    intro n₁ n₂ request₁ request₂ reserved₁ reserved₂ stage₁ stage₂ h₁ h₂ hid
    obtain ⟨r₁, t₁, hold₁⟩ | ⟨rfl, hnew₁⟩ := hbefore n₁ request₁ reserved₁ stage₁ h₁
    · obtain ⟨r₂, t₂, hold₂⟩ | ⟨rfl, hnew₂⟩ := hbefore n₂ request₂ reserved₂ stage₂ h₂
      · exact h.apart n₁ n₂ _ _ _ _ _ _ hold₁ hold₂ hid
      · exact absurd hid (hnew₂ request₁ (hmem _ _ _ _ hold₁))
    · obtain ⟨r₂, t₂, hold₂⟩ | ⟨rfl, -⟩ := hbefore n₂ request₂ reserved₂ stage₂ h₂
      · exact absurd hid.symm (hnew₁ request₂ (hmem _ _ _ _ hold₂))
      · rfl

/-- A task goes on over a command on the indexes. -/
theorem goOnSame {n : ℕ} {task : Task} {k : Keys} (h : CountInv idleTtl s)
    (hkeys : SameData s.keys k) (hok : TaskOk s task)
    (hadding : ∀ request reserved stage, task = .adding request reserved stage →
      ∃ reserved' stage', s.tasks n = .adding request reserved' stage') :
    CountInv idleTtl { s.goOn n task with keys := k } := by
  have habsent : ∀ request : InteractionRequest, s.keys.states request.interactionId = none →
      k.states request.interactionId = none := by
    intro request hnone
    rw [hkeys.states]
    exact hnone
  refine h.goOn task (h.toKeysInv.sameData hkeys rfl rfl rfl rfl) hkeys.grows (fun _ => id) rfl
    (fun n' request reserved stage _ heq => ?_) ?_ fun request reserved stage heq =>
      .inl (hadding request reserved stage heq)
  · have hok' := h.tasks n'
    rw [heq] at hok'
    exact ⟨habsent request hok'.2.1, hok'.2.2.1⟩
  · refine hok.mono hkeys.grows (fun _ => id) fun request reserved stage heq => ?_
    rw [heq] at hok
    exact ⟨habsent request hok.2.1, hok.2.2.1⟩

/-- A task goes on that adds no question. -/
theorem proceed {n : ℕ} {task : Task} (h : CountInv idleTtl s) (hok : TaskOk s task)
    (hadding : ∀ request reserved stage, task ≠ .adding request reserved stage) :
    CountInv idleTtl (s.goOn n task) :=
  h.goOnSame (.refl _) hok fun _ _ _ heq => absurd heq (hadding _ _ _)

/-- A task goes on over a command of a resolver. -/
theorem afterResolve {n : ℕ} {task : Task} {done : World × Outcome} (h : CountInv idleTtl s)
    (hdone : ResolveOk idleTtl s id group done) (hok : TaskOk done.1 task)
    (hadding : ∀ request reserved stage, task ≠ .adding request reserved stage) :
    CountInv idleTtl (done.1.goOn n task) := by
  refine h.goOn (n := n) task (hdone.keys.sameData (.refl _) rfl rfl rfl rfl) hdone.grows
    (fun request hmem => ?_) ?_ (fun n' request reserved stage _ heq => ?_)
    (hok.mono (.refl _) (fun _ hmem => hmem) fun request reserved stage heq => ?_)
    fun request reserved stage heq => ?_
  · show request ∈ done.1.asked
    rw [hdone.asked]
    exact hmem
  · show Function.update done.1.tasks n task = _
    rw [hdone.tasks]
  · have hok' := h.tasks n'
    rw [heq] at hok'
    obtain ⟨hnone, hsame⟩ := hdone.absent _ hok'.2.1
    exact ⟨hnone, hsame.trans hok'.2.2.1⟩
  · exact absurd heq (hadding _ _ _)
  · exact absurd heq (hadding _ _ _)

theorem mem_readStream (h : CountInv idleTtl s) {request : InteractionRequest}
    (hmem : request ∈ s.readStream group) : request ∈ s.asked ∧ request.groupId = group := by
  unfold World.readStream at hmem
  cases hread : Expiring.read s.clock (s.keys.streams group) with
  | none =>
    rw [hread] at hmem
    cases hmem
  | some entries =>
    rw [hread] at hmem
    obtain ⟨stream, hstream, -, rfl⟩ := Expiring.read_eq_some.mp hread
    exact h.streams _ stream hstream request hmem

/-- The pending questions of a group are among its entries. -/
theorem mem_pendingOf (h : CountInv idleTtl s) {entries : List InteractionRequest}
    {first : Option GroupId} {request : InteractionRequest}
    (hentries : ∀ entry ∈ entries, first = some entry.groupId ∧ entry ∈ s.asked)
    (hmem : request ∈ s.pendingOf entries) : first = some request.groupId ∧ request ∈ s.asked := by
  obtain ⟨state, hstate, hrequest⟩ := List.mem_filterMap.mp hmem
  obtain ⟨entry, hentry, hread⟩ := List.mem_filterMap.mp hstate
  simp only [Option.ite_none_right_eq_some, Option.some.injEq] at hrequest
  obtain ⟨-, rfl⟩ := hrequest
  obtain ⟨key, hkey, -, rfl⟩ := Expiring.read_eq_some.mp hread
  obtain ⟨hfirst, hasked⟩ := hentries entry hentry
  obtain ⟨hasked', hid⟩ := h.states _ key hkey
  rw [h.eq_of_id hasked' hasked hid]
  exact ⟨hfirst, hasked⟩

theorem stepAdd {n : ℕ} {now : Time} {request : InteractionRequest} {reserved : Bool}
    {stage : AddStage} (h : CountInv idleTtl s)
    (htask : s.tasks n = .adding request reserved stage) :
    CountInv idleTtl (s.stepAdd idleTtl n now request reserved stage) := by
  have hok := h.tasks n
  rw [htask] at hok
  obtain ⟨hmem, hnone, hzero, hstage⟩ := hok
  have hadding : ∀ request' reserved' stage' stage'', (.adding request reserved stage'' : Task) =
      .adding request' reserved' stage' →
      ∃ reserved' stage', s.tasks n = .adding request' reserved' stage' := by
    rintro request' reserved' stage' stage'' heq
    obtain ⟨rfl, -, -⟩ := Task.adding.inj heq
    exact ⟨_, _, htask⟩
  cases stage with
  | listing =>
    refine h.goOnSame (.refl _) ⟨hmem, hnone, hzero, fun id hid => ?_⟩ fun _ _ _ => hadding _ _ _ _
    obtain ⟨sibling, hsibling, rfl⟩ := List.mem_map.mp hid
    obtain ⟨hmem', hgroup⟩ := h.mem_readStream hsibling
    exact ⟨sibling, hmem', rfl, hgroup⟩
  | purging siblings =>
    exact h.goOnSame sameData_pendingPurge ⟨hmem, hnone, hzero, hstage⟩
      fun _ _ _ => hadding _ _ _ _
  | committing siblings =>
    have hadded := added_addQuestion (k := s.keys) idleTtl s.clock now request siblings reserved
    refine h.goOn (n := n) .ended
      ((h.toKeysInv.added hadded hmem hnone hzero hstage).sameData (.refl _) rfl rfl rfl rfl)
      hadded.grows (fun _ hmem => hmem) rfl (fun n' request' reserved' stage' hn heq => ?_) trivial
      fun _ _ _ heq => by cases heq
    have hok' := h.tasks n'
    rw [heq] at hok'
    refine ⟨?_, hok'.2.2.1⟩
    have hid : request'.interactionId ≠ request.interactionId := fun hid =>
      hn (h.apart n' n _ _ _ _ _ _ heq htask hid)
    obtain hsame | ⟨-, state, hread, -⟩ := hadded.states _ hid
    · exact hsame.trans hok'.2.1
    · rw [hok'.2.1] at hread
      cases hread

theorem stepBacklog {n : ℕ} {now : Time} {groups : List GroupId}
    {found : List InteractionRequest} {stage : BacklogStage} (h : CountInv idleTtl s)
    (htask : s.tasks n = .backlog now groups found stage) :
    CountInv idleTtl (s.stepBacklog n now groups found stage) := by
  have hok := h.tasks n
  rw [htask] at hok
  cases stage with
  | reading =>
    cases groups with
    | nil => exact h.proceed trivial fun _ _ _ heq => by cases heq
    | cons group rest =>
      refine h.proceed ?_ fun _ _ _ heq => by cases heq
      split_ifs
      · trivial
      · intro request hmem
        obtain ⟨hasked, hgroup⟩ := h.mem_readStream hmem
        exact ⟨congrArg some hgroup.symm, hasked⟩
  | unlisting =>
    cases groups with
    | nil => exact h.proceed trivial fun _ _ _ heq => by cases heq
    | cons group rest =>
      exact h.goOnSame ⟨rfl, rfl, rfl, rfl, rfl, rfl⟩ trivial fun _ _ _ heq => by cases heq
  | undating =>
    cases groups with
    | nil => exact h.proceed trivial fun _ _ _ heq => by cases heq
    | cons group rest =>
      exact h.goOnSame ⟨rfl, rfl, rfl, rfl, rfl, rfl⟩ trivial fun _ _ _ heq => by cases heq
  | inspecting entries =>
    refine h.proceed (taskOk_pruneNext fun request hmem => ?_) pruneNext_ne_adding
    exact h.mem_pendingOf hok (List.mem_filter.mp hmem).1
  | pruning overdue stage =>
    cases groups with
    | nil => exact h.proceed trivial fun _ _ _ heq => by cases heq
    | cons group rest =>
      cases overdue with
      | nil => exact h.proceed trivial fun _ _ _ heq => by cases heq
      | cons request overdue =>
        obtain ⟨hmem, hwatched⟩ := hok
        obtain ⟨hgroup, hasked⟩ := hmem request List.mem_cons_self
        obtain rfl := Option.some.inj hgroup
        have hdone := h.resolve .prune ⟨request, hasked, rfl, rfl⟩
          (hwatched request rfl)
        have hall : ∀ request' ∈ request :: overdue, (request.groupId :: rest).head? =
            some request'.groupId ∧ request' ∈ (s.resolve .prune request.interactionId
              request.groupId stage).1.asked := by
          intro request' hmem'
          rw [hdone.asked]
          exact hmem request' hmem'
        unfold World.stepBacklog
        dsimp only
        split
        · rename_i stage' houtcome
          refine h.afterResolve hdone ⟨hall, ?_⟩ fun _ _ _ heq => by cases heq
          rintro request' ⟨⟩
          exact hdone.watched stage' houtcome
        · exact h.afterResolve hdone (taskOk_pruneNext fun request' hmem' =>
            hall request' (List.mem_cons_of_mem _ hmem')) pruneNext_ne_adding
        · exact h.afterResolve hdone trivial fun _ _ _ heq => by cases heq

theorem step {a : Label} (h : CountInv idleTtl s) (hstep : s.next idleTtl a = some s') :
    CountInv idleTtl s' := by
  cases a with
  | add n request reserved =>
    simp only [World.next, Option.ite_none_right_eq_some, Option.some.injEq] at hstep
    obtain ⟨⟨hidle, hall⟩, rfl⟩ := hstep
    have hfresh : ∀ asked ∈ s.asked, asked.interactionId ≠ request.interactionId := by
      simpa [List.all_eq_true] using hall
    have hzero : s.resolutions request.interactionId = 0 := by
      by_contra hne
      obtain ⟨asked, hmem, hid⟩ := h.known _ (Nat.pos_of_ne_zero hne)
      exact hfresh asked hmem hid
    refine h.goOn (n := n) (.adding request reserved .listing)
      ((h.toKeysInv.ask hfresh).sameData (.refl _) rfl rfl rfl rfl) (.refl _)
      (fun _ => List.mem_cons_of_mem _) rfl (fun n' request' reserved' stage' _ heq => ?_)
      ⟨List.mem_cons_self, h.states_of_fresh hfresh, hzero, trivial⟩
      fun request' reserved' stage' heq => ?_
    · have hok := h.tasks n'
      rw [heq] at hok
      exact ⟨hok.2.1, hok.2.2.1⟩
    · obtain ⟨rfl, -, -⟩ := Task.adding.inj heq
      exact .inr hfresh
  | reserveOpenSlot now limit request =>
    simp only [World.next, Option.ite_none_left_eq_some, Option.some.injEq] at hstep
    obtain ⟨-, rfl⟩ := hstep
    have hinv := h.goOnSame (n := 0) (sameData_openReserve now limit request) (h.tasks 0)
      fun request reserved stage heq => ⟨reserved, stage, heq⟩
    simpa only [World.goOn, Function.update_eq_self] using hinv
  | resolve n resolution id group =>
    simp only [World.next, Option.ite_none_right_eq_some, Option.some.injEq] at hstep
    obtain ⟨⟨-, hany⟩, rfl⟩ := hstep
    refine h.proceed ⟨?_, trivial⟩ fun _ _ _ heq => by cases heq
    simpa [Asked] using hany
  | backlog n now =>
    simp only [World.next, Option.ite_none_right_eq_some, Option.some.injEq] at hstep
    obtain ⟨-, rfl⟩ := hstep
    exact h.proceed trivial fun _ _ _ heq => by cases heq
  | step n now =>
    simp only [World.next, Option.ite_none_left_eq_some] at hstep
    obtain ⟨-, hstep⟩ := hstep
    split at hstep
    · cases hstep
    · cases hstep
    · rename_i request reserved stage htask
      obtain rfl := Option.some.inj hstep
      exact h.stepAdd htask
    · rename_i resolver htask
      obtain rfl := Option.some.inj hstep
      have hok := h.tasks n
      rw [htask] at hok
      have hdone := h.resolve resolver.resolution hok.1 hok.2
      split
      · rename_i stage houtcome
        refine h.afterResolve hdone ⟨?_, hdone.watched stage houtcome⟩ fun _ _ _ heq => by cases heq
        exact hok.1.mono fun request hmem => hdone.asked.symm ▸ hmem
      · exact h.afterResolve hdone trivial fun _ _ _ heq => by cases heq
    · obtain rfl := Option.some.inj hstep
      exact h.proceed trivial fun _ _ _ heq => by cases heq
    · rename_i now groups found stage htask
      obtain rfl := Option.some.inj hstep
      exact h.stepBacklog htask
  | crash n =>
    obtain rfl := Option.some.inj hstep
    exact h.proceed trivial fun _ _ _ heq => by cases heq
  | tick clock =>
    simp only [World.next, Option.ite_none_right_eq_some, Option.some.injEq] at hstep
    obtain ⟨hle, rfl⟩ := hstep
    exact ⟨h.toKeysInv.tick hle, fun n => (h.tasks n).mono (.refl _) (fun _ hmem => hmem)
      fun request reserved stage heq => by
        have hok := h.tasks n
        rw [heq] at hok
        exact ⟨hok.2.1, hok.2.2.1⟩, h.apart⟩

theorem start : CountInv idleTtl .start where
  ids := List.nodup_nil
  states _ _ h := by cases h
  streams _ _ h := by cases h
  covered _ _ h := by cases h
  sound _ _ h := by cases h
  bound _ _ h := by cases h
  once _ := Nat.zero_le _
  resolved _ _ h := by cases h
  replies _ := rfl
  known _ h := by cases h
  tasks _ := trivial
  apart _ _ _ _ _ _ _ _ h := by cases h

end CountInv

/-! ## Every run -/

/-- The group whose count the task is about to read. -/
def Task.readsCount : Task → Option GroupId
  | .resolving ⟨_, _, group, .readingCount _ _⟩ => some group
  | .backlog _ (group :: _) _ (.pruning (_ :: _) (.readingCount _ _)) => some group
  | _ => none

/-- A call that has read a question pending reads the count while a question of the group still
is. -/
def ReadsInTime (s : World) : Label → Prop
  | .step n _ => ∀ group, (s.tasks n).readsCount = some group →
    ∃ request ∈ s.asked, request.groupId = group ∧ s.isPending request.interactionId = true
  | _ => True

/-- The runs in which every count is read in time. -/
def timelyInteractions (idleTtl : Time) : System World Label :=
  (interactions idleTtl).when ReadsInTime

/-- What holds of a state, and of its next step. -/
structure Counted (idleTtl : Time) (s : World) : Prop where
  counted : ∀ group, 0 < s.pendingIn group →
    ∃ count, s.readCount group = some count ∧ (s.pendingIn group : ℤ) ≤ count
  /-- No call has found the index torn. -/
  untorn : s.torn = []
  /-- A group is dropped at zero only when no question of it is pending. -/
  dropped : ∀ a s' group count, (timelyInteractions idleTtl).step s a s' →
    s.keys.counts group = some count → s'.keys.counts group = none → s'.pendingIn group = 0
  /-- One call at most on a question returns `True`. -/
  once : ∀ id, s.answered id + s.pruned id ≤ 1
  /-- The reply list receives one answer where it was an answer, else none. -/
  replies : ∀ id, (s.keys.replies id).length = s.answered id

theorem World.resolve_torn (resolution : Resolution) (id : InteractionId) (group : GroupId)
    (stage : Stage) :
    (s.resolve resolution id group stage).1.torn = s.torn ∨
      (∃ watch sensitive, stage = .readingCount watch sensitive) ∧ s.readCount group = none := by
  cases stage with
  | readingCount watch sensitive =>
    cases hread : s.readCount group with
    | none => exact .inr ⟨⟨_, _, rfl⟩, rfl⟩
    | some count =>
      refine .inl ?_
      simp only [resolve, hread]
  | readingStatus watch =>
    refine .inl ?_
    simp only [resolve]
    split
    · rfl
    · split_ifs
      · rfl
      · cases resolution <;> rfl
  | executing watch sensitive remaining =>
    refine .inl ?_
    simp only [resolve]
    split
    · split_ifs
      · cases resolution <;> rfl
      · rfl
    · rfl
  | _ => exact .inl rfl

theorem Task.readsCount_of_resolves {task : Task} {resolution : Resolution} {watch : Watch}
    {sensitive : Bool}
    (h : task.resolves = some (resolution, id, group, .readingCount watch sensitive)) :
    task.readsCount = some group := by
  cases task with
  | resolving resolver =>
    obtain ⟨resolution', id', group', stage'⟩ := resolver
    cases h
    rfl
  | backlog now groups found stage =>
    cases groups with
    | nil => cases stage <;> cases h
    | cons group' rest =>
      cases stage with
      | pruning overdue stage' =>
        cases overdue with
        | nil => cases h
        | cons request overdue =>
          cases h
          rfl
      | _ => cases h
  | _ => cases h

namespace CountInv

/-- Read in time, no count is missing. -/
theorem untorn {a : Label} (h : CountInv idleTtl s) (hok : ReadsInTime s a)
    (hstep : s.next idleTtl a = some s') (huntorn : s.torn = []) : s'.torn = [] := by
  cases World.writes_of_next hstep with
  | resolve htask hkeys hclock hasked htorn =>
    rename_i n now resolution id group stage
    rw [htorn]
    obtain hsame | ⟨⟨watch, sensitive, rfl⟩, hread⟩ := World.resolve_torn (s := s)
      resolution id group stage
    · rw [hsame]
      exact huntorn
    · obtain ⟨request, hmem, rfl, hpending⟩ := hok group (Task.readsCount_of_resolves htask)
      obtain ⟨count, hcount, hlive⟩ := h.count_of_pending hmem hpending
      rw [World.readCount, Expiring.read_eq_some.mpr ⟨count, hcount, hlive, rfl⟩] at hread
      cases hread
  | none _ htorn | reserve _ htorn => exact htorn.trans huntorn
  | purge _ _ _ htorn | add _ _ _ htorn | unlist _ _ _ htorn | undate _ _ _ htorn =>
    exact htorn.trans huntorn

/-- What a task that resolves a question relies on. -/
theorem of_resolves {n : ℕ} {resolution : Resolution} {stage : Stage} (h : CountInv idleTtl s)
    (htask : (s.tasks n).resolves = some (resolution, id, group, stage)) :
    Asked s id group ∧ Watched s id group stage := by
  have hok := h.tasks n
  revert hok htask
  cases s.tasks n with
  | resolving resolver =>
    rintro ⟨⟩ hok
    exact hok
  | backlog now groups found stage =>
    cases groups with
    | nil => cases stage <;> rintro ⟨⟩
    | cons group rest =>
      cases stage with
      | pruning overdue stage =>
        cases overdue with
        | nil => rintro ⟨⟩
        | cons request overdue =>
          rintro ⟨⟩ hok
          obtain ⟨hgroup, hasked⟩ := hok.1 request List.mem_cons_self
          obtain rfl := Option.some.inj hgroup
          exact ⟨⟨request, hasked, rfl, rfl⟩, hok.2 request rfl⟩
      | _ => rintro ⟨⟩
  | _ => rintro ⟨⟩

/-- A count is deleted only where no question of the group is left pending. -/
theorem dropped {a : Label} {count : Expiring ℤ} (h : CountInv idleTtl s)
    (hstep : s.next idleTtl a = some s') (hsome : s.keys.counts group = some count)
    (hnone : s'.keys.counts group = none) : s'.pendingIn group = 0 := by
  have hkept : SameData s.keys s'.keys → s'.pendingIn group = 0 := by
    intro hsame
    rw [hsame.counts, hsome] at hnone
    cases hnone
  cases World.writes_of_next hstep with
  | none hkeys => exact hkept (hkeys ▸ .refl _)
  | reserve hkeys => exact hkept (hkeys ▸ sameData_openReserve _ _ _)
  | purge _ hkeys => exact hkept (hkeys ▸ sameData_pendingPurge)
  | unlist _ hkeys => exact hkept (hkeys ▸ ⟨rfl, rfl, rfl, rfl, rfl, rfl⟩)
  | undate _ hkeys => exact hkept (hkeys ▸ ⟨rfl, rfl, rfl, rfl, rfl, rfl⟩)
  | add htask hkeys hclock htorn =>
    rename_i n now request siblings reserved
    have hadded := added_addQuestion (k := s.keys) idleTtl s.clock now request siblings reserved
    rw [hkeys] at hnone
    by_cases hgroup : group = request.groupId
    · subst hgroup
      rw [hadded.count] at hnone
      cases hnone
    · rw [hadded.counts group hgroup, hsome] at hnone
      cases hnone
  | resolve htask hkeys hclock hasked htorn =>
    rename_i n now resolution id group' stage
    obtain ⟨hasked', hwatched⟩ := h.of_resolves htask
    have hdone := h.resolve resolution hasked' hwatched
    have hzero := hdone.dropped group count hsome (hkeys ▸ hnone)
    rw [← hzero]
    obtain ⟨hclock', hasked''⟩ := World.resolve_frame (s := s) resolution id group'
      stage
    simp only [World.pendingIn, World.isPending, World.readState, hkeys, hclock, hasked, hclock',
      hasked'']

end CountInv

/-- However the calls come in between each other and whatever keys run out, the counts cover the
pending questions and every question is resolved once at most; where every count is read in time,
no call finds the index torn. -/
theorem counted_of_readsInTime (h : (timelyInteractions idleTtl).Reachable s) :
    Counted idleTtl s := by
  obtain ⟨hinv, huntorn⟩ : CountInv idleTtl s ∧ s.torn = [] := by
    refine h.invariant (p := fun s => CountInv idleTtl s ∧ s.torn = []) ?_ ?_
    · rintro s rfl
      exact ⟨.start, rfl⟩
    · rintro s a s' ⟨hinv, huntorn⟩ ⟨hok, hstep⟩
      exact ⟨hinv.step hstep, hinv.untorn hok hstep huntorn⟩
  refine ⟨fun group hpos => ?_, huntorn, fun a s' group count hstep hsome hnone =>
    hinv.dropped hstep.2 hsome hnone, hinv.once, hinv.replies⟩
  have hle := hinv.pendingIn_le group
  cases hread : s.readCount group with
  | none =>
    rw [hread] at hle
    simp only [Option.getD_none] at hle
    omega
  | some count =>
    rw [hread] at hle
    exact ⟨count, rfl, hle⟩

instance (s : World) : (a : Label) → Decidable (ReadsInTime s a)
  | .step n _ => inferInstanceAs
      (Decidable (∀ group, (s.tasks n).readsCount = some group → ∃ request ∈ s.asked, _))
  | .add .. | .reserveOpenSlot .. | .resolve .. | .backlog .. | .crash _ | .tick _ => .isTrue trivial

/-- A question of group 1 that waits for an hour. -/
def question : InteractionRequest := ⟨7, 1, 0, 3600000, false⟩

/-- `question` is asked. -/
def questionAsked : List Label := .add 0 question false :: List.replicate 3 (.step 0 0)

/-- Two answers meet: the second finds its watch broken and returns `False`. -/
theorem counted_duplicate : ∃ s, (timelyInteractions 86400000).Reachable s ∧
    s.answered 7 = 1 ∧ s.tasks 1 = .ended ∧ s.keys.replies 7 = ["no"] ∧ Counted 86400000 s := by
  obtain ⟨s, hs, hp⟩ := System.Reachable.of_foldlM (S := timelyInteractions 86400000)
    (f := System.guarded (World.next 86400000) fun s a => decide (ReadsInTime s a)) (s := .start)
    (p := fun s => s.answered 7 == 1 && s.tasks 1 == .ended && s.keys.replies 7 == ["no"])
    (l := questionAsked ++ .resolve 1 (.answer "yes" none) 7 1 ::
      .resolve 2 (.answer "no" none) 7 1 :: List.replicate 4 (.step 1 0) ++
      List.replicate 5 (.step 2 0) ++ List.replicate 3 (.step 1 0))
    (fun s a s' h => ⟨of_decide_eq_true (System.step_of_guarded h).1,
      (System.step_of_guarded h).2⟩) rfl (by decide +kernel)
  simp only [Bool.and_eq_true, beq_iff_eq] at hp
  exact ⟨s, hs, hp.1.1, hp.1.2, hp.2, counted_of_readsInTime hs⟩

/-- The second answer has read the question pending; then the first is recorded, with it the count
deleted, and the second reports a torn index. -/
theorem torn_by_duplicate : ∃ s, (interactions 86400000).Reachable s ∧ s.answered 7 = 1 ∧
    s.torn = [7] := by
  obtain ⟨s, hs, hp⟩ := System.Reachable.of_foldlM (S := interactions 86400000)
    (f := World.next 86400000) (s := .start)
    (p := fun s => s.answered 7 == 1 && s.torn == [7])
    (l := questionAsked ++ .resolve 1 (.answer "yes" none) 7 1 ::
      .resolve 2 (.answer "no" none) 7 1 :: List.replicate 2 (.step 1 0) ++
      List.replicate 5 (.step 2 0) ++ List.replicate 2 (.step 1 0))
    (fun s a s' h => h) rfl (by decide +kernel)
  simp only [Bool.and_eq_true, beq_iff_eq] at hp
  exact ⟨s, hs, hp.1, hp.2⟩

end TaiSkeleton.Interactions
