import TaiSkeleton.Conversations.ThreadQueue

/-!
# One turn of a thread at a time

The counter of a thread is the number of its reservations that have not been given back, and its
entries are gone with the last of them. A turn that waits for a lock or holds one has not given its
reservation back, so the lock is still the thread's, and all turns of the thread use that one.
-/

namespace TaiSkeleton.Conversations

open Lib

variable {τ : Type} [DecidableEq τ]

namespace ThreadQueue

variable {s s' : ThreadQueue τ} {n lock : ℕ} {thread thread' : τ} {phase phase' : TurnPhase}

structure Inv (s : ThreadQueue τ) : Prop where
  absent : ∀ n, s.reservations ≤ n → s.turns n = none
  waiters : ∀ thread, s.threadWaiters thread =
    if s.outstanding thread = 0 then none else some (s.outstanding thread : ℤ)
  owned : ∀ thread lock, s.threadLocks thread = some lock →
    lock < s.created ∧ s.outstanding thread ≠ 0
  distinct : ∀ thread thread' lock, s.threadLocks thread = some lock →
    s.threadLocks thread' = some lock → thread = thread'
  uses : ∀ n turn lock, s.turns n = some turn → usesLock lock (some turn) = true →
    s.threadLocks turn.thread = some lock
  guards : ∀ lock, Guards s.turns (s.locks lock) lock

theorem inv_start (depth limit : ℤ) : (start depth limit : ThreadQueue τ).Inv where
  absent _ _ := rfl
  waiters thread := by
    have hnone : (start depth limit : ThreadQueue τ).outstanding thread = 0 := rfl
    rw [if_pos hnone]
    rfl
  owned _ _ hlock := by cases hlock
  distinct _ _ _ hlock := by cases hlock
  uses _ _ _ hturn := by cases hturn
  guards _ := .of_unused fun _ => rfl

/-! ## Counting the reservations -/

theorem Inv.lt (h : s.Inv) {turn : ThreadTurn τ} (hturn : s.turns n = some turn) :
    n < s.reservations := by
  by_contra hle
  rw [h.absent n (Nat.le_of_not_lt hle)] at hturn
  cases hturn

theorem outstanding_update (turns : ℕ → Option (ThreadTurn τ)) {reservations : ℕ}
    (turn : Option (ThreadTurn τ)) (hn : n < reservations) (thread : τ) :
    (List.range reservations).countP (fun m => owes thread (Function.update turns n turn m)) +
        (owes thread (turns n)).toNat =
      (List.range reservations).countP (fun m => owes thread (turns m)) +
        (owes thread turn).toNat :=
  countP_update List.nodup_range (List.mem_range.mpr hn)

theorem outstanding_ne_zero_iff (h : s.Inv) :
    s.outstanding thread ≠ 0 ↔ ∃ n, owes thread (s.turns n) = true := by
  rw [← Nat.pos_iff_ne_zero, outstanding, List.countP_pos_iff]
  constructor
  · rintro ⟨n, -, hn⟩
    exact ⟨n, hn⟩
  · rintro ⟨n, hn⟩
    cases hturn : s.turns n with
    | none =>
      rw [hturn] at hn
      cases hn
    | some turn => exact ⟨n, List.mem_range.mpr (h.lt hturn), hn⟩

theorem owes_some : owes thread (some ⟨thread', phase⟩) = true ↔
    thread' = thread ∧ phase ≠ .released := by
  unfold owes
  rw [decide_eq_true_eq]

/-- A turn that uses a lock has its reservation. -/
theorem owes_of_usesLock {turn : ThreadTurn τ} (h : usesLock lock (some turn) = true) :
    owes turn.thread (some turn) = true := by
  obtain ⟨thread, phase⟩ := turn
  rw [owes_some]
  refine ⟨rfl, ?_⟩
  rintro rfl
  cases h

/-! ## A turn goes on -/

theorem Inv.setGate (h : s.Inv) (gate : ConcurrencyGate) :
    ({ s with gate } : ThreadQueue τ).Inv :=
  ⟨h.absent, h.waiters, h.owned, h.distinct, h.uses, h.guards⟩

theorem Inv.reconfigure (h : s.Inv) (depth limit : ℤ) : (s.reconfigure depth limit).Inv :=
  ⟨h.absent, h.waiters, h.owned, h.distinct, h.uses, h.guards⟩

theorem Inv.absent_update (h : s.Inv) (hn : n < s.reservations) (turn : Option (ThreadTurn τ))
    (m : ℕ) (hm : s.reservations ≤ m) : Function.update s.turns n turn m = none := by
  rw [Function.update_of_ne (Nat.ne_of_gt (hn.trans_le hm))]
  exact h.absent m hm

/-- A turn that keeps its reservation, at a lock of its thread. -/
theorem Inv.move (h : s.Inv) (hturn : s.turns n = some ⟨thread, phase⟩) (hphase : phase ≠ .released)
    (hphase' : phase' ≠ .released) {locks : ℕ → AsyncLock ℕ}
    (huses : ∀ lock, usesLock lock (some ⟨thread, phase'⟩) = true →
      s.threadLocks thread = some lock)
    (hguards : ∀ lock, Guards (Function.update s.turns n (some ⟨thread, phase'⟩)) (locks lock)
      lock) : ({ s with locks }.setTurn n thread phase').Inv := by
  have hcount : ∀ thread', ({ s with locks }.setTurn n thread phase').outstanding thread' =
      s.outstanding thread' := by
    intro thread'
    have hupdate := outstanding_update s.turns (some ⟨thread, phase'⟩)
      (h.lt hturn) thread'
    have hsame : owes thread' (some ⟨thread, phase'⟩) = owes thread' (s.turns n) := by
      rw [hturn, Bool.eq_iff_iff, owes_some, owes_some]
      exact and_congr_right fun _ => iff_of_true hphase' hphase
    rw [hsame] at hupdate
    exact Nat.add_right_cancel hupdate
  exact {
    absent := h.absent_update (h.lt hturn) _
    waiters := fun thread' => by
      rw [hcount]
      exact h.waiters thread'
    owned := fun thread' lock hlock => by
      rw [hcount]
      exact h.owned thread' lock hlock
    distinct := h.distinct
    uses := fun m turn lock hm hlock => by
      replace hm : Function.update s.turns n (some ⟨thread, phase'⟩) m = some turn := hm
      rcases eq_or_ne m n with rfl | hne
      · rw [Function.update_self] at hm
        obtain rfl := Option.some.inj hm
        exact huses lock hlock
      · rw [Function.update_of_ne hne] at hm
        exact h.uses m turn lock hm hlock
    guards := hguards }

/-! ## A reservation is given back -/

/-- What is left of a reservation given back, beside the counter and the lock of its thread. -/
structure Returned (s s' : ThreadQueue τ) (n : ℕ) (thread : τ) : Prop where
  turns : s'.turns = Function.update s.turns n (some ⟨thread, .released⟩)
  reservations : s'.reservations = s.reservations
  created : s'.created = s.created
  waiters : s'.threadWaiters thread =
    if s'.outstanding thread = 0 then none else some (s'.outstanding thread : ℤ)
  waiters_of_ne : ∀ thread', thread' ≠ thread → s'.threadWaiters thread' = s.threadWaiters thread'
  locks : s'.threadLocks thread =
    if s'.outstanding thread = 0 then none else s.threadLocks thread
  locks_of_ne : ∀ thread', thread' ≠ thread → s'.threadLocks thread' = s.threadLocks thread'

theorem outstanding_released (h : s.Inv) (hturn : s.turns n = some ⟨thread, phase⟩)
    (hphase : phase ≠ .released) (hturns : s'.turns =
      Function.update s.turns n (some ⟨thread, .released⟩))
    (hreservations : s'.reservations = s.reservations) :
    s'.outstanding thread + 1 = s.outstanding thread ∧
      ∀ thread', thread' ≠ thread → s'.outstanding thread' = s.outstanding thread' := by
  have hupdate := fun thread' => outstanding_update s.turns (some ⟨thread, .released⟩)
    (h.lt hturn) thread'
  have hafter : ∀ thread', owes thread' (some ⟨thread, .released⟩) = false := by
    intro thread'
    rw [Bool.eq_false_iff, ne_eq, owes_some]
    exact fun hnot => hnot.2 rfl
  have hbefore : ∀ thread', owes thread' (s.turns n) = decide (thread = thread') := by
    intro thread'
    rw [hturn, Bool.eq_iff_iff, owes_some, decide_eq_true_eq]
    exact and_iff_left hphase
  unfold ThreadQueue.outstanding
  rw [hturns, hreservations]
  refine ⟨?_, fun thread' hne => ?_⟩
  · have hthread := hupdate thread
    rw [hafter, hbefore, decide_eq_true rfl] at hthread
    exact hthread
  · have hthread := hupdate thread'
    rw [hafter, hbefore, decide_eq_false hne.symm] at hthread
    exact hthread

theorem Inv.returned (h : s.Inv) (hturn : s.turns n = some ⟨thread, phase⟩)
    (hphase : phase ≠ .released) (hback : Returned s s' n thread)
    (hguards : ∀ lock, Guards s'.turns (s'.locks lock) lock) : s'.Inv := by
  obtain ⟨-, hothers⟩ := outstanding_released h hturn hphase hback.turns hback.reservations
  have hkept : ∀ thread' lock, s'.threadLocks thread' = some lock →
      s.threadLocks thread' = some lock ∧ s'.outstanding thread' ≠ 0 := by
    intro thread' lock hlock
    rcases eq_or_ne thread' thread with rfl | hne
    · rw [hback.locks] at hlock
      obtain ⟨hout, hlock⟩ := Option.ite_none_left_eq_some.mp hlock
      exact ⟨hlock, hout⟩
    · rw [hback.locks_of_ne thread' hne] at hlock
      rw [hothers thread' hne]
      exact ⟨hlock, (h.owned thread' lock hlock).2⟩
  have habsent : ∀ m, s'.reservations ≤ m → s'.turns m = none := by
    rw [hback.turns, hback.reservations]
    exact h.absent_update (h.lt hturn) _
  exact {
    absent := habsent
    waiters := fun thread' => by
      rcases eq_or_ne thread' thread with rfl | hne
      · exact hback.waiters
      · rw [hback.waiters_of_ne thread' hne, hothers thread' hne]
        exact h.waiters thread'
    owned := fun thread' lock hlock => by
      obtain ⟨hlock, hout⟩ := hkept thread' lock hlock
      rw [hback.created]
      exact ⟨(h.owned thread' lock hlock).1, hout⟩
    distinct := fun thread₁ thread₂ lock hlock₁ hlock₂ =>
      h.distinct thread₁ thread₂ lock (hkept thread₁ lock hlock₁).1 (hkept thread₂ lock hlock₂).1
    uses := fun m turn lock hm hlock => by
      have howes := owes_of_usesLock hlock
      have hm' := hm
      rw [hback.turns, Function.update_apply] at hm
      split_ifs at hm with hmn
      · obtain rfl := Option.some.inj hm
        cases hlock
      · have hs := h.uses m turn lock hm hlock
        rcases eq_or_ne turn.thread thread with heq | hne
        · have hout : s'.outstanding thread ≠ 0 := by
            rw [← Nat.pos_iff_ne_zero, ThreadQueue.outstanding, List.countP_pos_iff]
            refine ⟨m, List.mem_range.mpr ?_, ?_⟩
            · rw [hback.reservations]
              exact h.lt hm
            · rw [hm', ← heq]
              exact howes
          rw [heq, hback.locks, if_neg hout, ← heq]
          exact hs
        · rw [hback.locks_of_ne turn.thread hne]
          exact hs
    guards := hguards }

/-- When the last reservation of a thread has been given back, its lock is free. -/
theorem Inv.lock_free (h : s.Inv) (hturns : s'.turns =
      Function.update s.turns n (some ⟨thread, .released⟩))
    (hreservations : s'.reservations = s.reservations) {state : AsyncLock ℕ}
    (hguards : Guards s'.turns state lock) (hout : s'.outstanding thread = 0)
    (hlock : s.threadLocks thread = some lock) : state.locked = false := by
  rw [← Bool.not_eq_true]
  intro hlocked
  obtain ⟨m, hholds⟩ := hguards.locked.mp hlocked
  rw [hturns, Function.update_apply] at hholds
  split_ifs at hholds with hmn
  · cases hholds
  · cases hm : s.turns m with
    | none =>
      rw [hm] at hholds
      cases hholds
    | some turn =>
      have huses : usesLock lock (some turn) = true := by
        rw [← hm, usesLock, hholds, Bool.or_true]
      have hthread : turn.thread = thread :=
        h.distinct _ _ lock (h.uses m turn lock hm huses) hlock
      have howes := owes_of_usesLock huses
      rw [ThreadQueue.outstanding, List.countP_eq_zero] at hout
      refine hout m (List.mem_range.mpr ?_) ?_
      · rw [hreservations]
        exact h.lt hm
      · rw [hturns, Function.update_of_ne hmn, hm, ← hthread]
        exact howes

/-- With its last reservation a thread loses its counter and its lock. -/
theorem Inv.giveBack (h : s.Inv) (hturn : s.turns n = some ⟨thread, phase⟩)
    (hphase : phase ≠ .released) {locks : ℕ → AsyncLock ℕ}
    (hguards : ∀ lock, Guards (Function.update s.turns n (some ⟨thread, .released⟩)) (locks lock)
      lock) : ({ s with locks }.giveBack n thread).Inv := by
  have hturns : ({ s with locks }.setTurn n thread .released).turns =
    Function.update s.turns n (some ⟨thread, .released⟩) := rfl
  have hcount := (outstanding_released h hturn hphase hturns rfl).1
  have hwaiting : (s.threadWaiters thread).getD 0 - 1 =
      (({ s with locks }.setTurn n thread .released).outstanding thread : ℤ) := by
    rw [h.waiters thread, if_neg (by omega), Option.getD_some, ← hcount]
    push_cast
    omega
  unfold ThreadQueue.giveBack releaseThreadSlot
  show ThreadQueue.Inv (if (s.threadWaiters thread).getD 0 - 1 ≤ 0 then _ else _)
  rw [hwaiting]
  split_ifs with hlast
  · have hout : ({ s with locks }.setTurn n thread .released).outstanding thread = 0 := by omega
    have hfree : ∀ lock, s.threadLocks thread = some lock → ¬(locks lock).locked = true :=
      fun lock hlock => by simp [h.lock_free hturns rfl (hguards lock) hout hlock]
    refine h.returned hturn hphase ⟨rfl, rfl, rfl, ?_, fun thread' hne => ?_, ?_,
      fun thread' hne => ?_⟩ hguards
    · exact (Function.update_self ..).trans (if_pos hout).symm
    · exact Function.update_of_ne hne ..
    · refine Eq.trans ?_ (if_pos hout).symm
      dsimp only [setTurn]
      cases hlock : s.threadLocks thread with
      | none => exact hlock
      | some lock =>
        exact (congrFun (if_neg (hfree lock hlock)) thread).trans (Function.update_self ..)
    · dsimp only [setTurn]
      cases hlock : s.threadLocks thread with
      | none => rfl
      | some lock =>
        exact (congrFun (if_neg (hfree lock hlock)) thread').trans (Function.update_of_ne hne ..)
  · have hout : ({ s with locks }.setTurn n thread .released).outstanding thread ≠ 0 := by omega
    refine h.returned hturn hphase ⟨rfl, rfl, rfl, ?_, fun thread' hne => ?_, ?_,
      fun thread' hne => ?_⟩ hguards
    · exact (Function.update_self ..).trans ((congrArg some hwaiting).trans (if_neg hout).symm)
    · exact Function.update_of_ne hne ..
    · exact (if_neg hout).symm
    · rfl

/-! ## The steps -/

theorem guards_unused (h : s.Inv) (hturn : s.turns n = some ⟨thread, phase⟩)
    (hbefore : ∀ lock, usesLock lock (some ⟨thread, phase⟩) = false)
    (hafter : ∀ lock, usesLock lock (some ⟨thread, phase'⟩) = false) (lock : ℕ) :
    Guards (Function.update s.turns n (some ⟨thread, phase'⟩)) (s.locks lock) lock := by
  obtain ⟨hwaits, hholds⟩ := usesLock_eq_false.mp (hbefore lock)
  obtain ⟨hwaits', hholds'⟩ := usesLock_eq_false.mp (hafter lock)
  refine (h.guards lock).other ?_ ?_
  · rw [hturn, hwaits, hwaits']
  · rw [hturn, hholds, hholds']

theorem outstanding_reserved (hreserve : s.reserveThreadSlot thread = some s')
    (thread' : τ) : s'.outstanding thread' = s.outstanding thread' +
      (owes thread' (some ⟨thread, .reserved⟩)).toNat := by
  unfold ThreadQueue.reserveThreadSlot at hreserve
  dsimp only at hreserve
  obtain ⟨-, hs'⟩ := Option.ite_none_left_eq_some.mp hreserve
  obtain rfl := Option.some.inj hs'
  show (List.range (s.reservations + 1)).countP (fun m => owes thread'
    (Function.update s.turns s.reservations (some ⟨thread, .reserved⟩) m)) = _
  rw [List.range_succ, List.countP_append, List.countP_singleton, Function.update_self]
  congr 1
  · refine List.countP_congr fun m hm => ?_
    rw [Function.update_of_ne (Nat.ne_of_lt (List.mem_range.mp hm))]
  · cases owes thread' (some (⟨thread, .reserved⟩ : ThreadTurn τ)) <;> rfl

/-- The stored counter is the number of reservations. -/
theorem Inv.waiting (h : s.Inv) (thread : τ) :
    (s.threadWaiters thread).getD 0 = s.outstanding thread := by
  rw [h.waiters]
  split_ifs with hout
  · rw [hout]
    rfl
  · rfl

theorem Inv.reserveThreadSlot (h : s.Inv) (hreserve : s.reserveThreadSlot thread = some s') :
    s'.Inv := by
  have hcount := outstanding_reserved hreserve
  have hself : owes thread (some ⟨thread, .reserved⟩) = true := by
    rw [owes_some]
    exact ⟨rfl, by decide⟩
  have hother : ∀ thread', thread' ≠ thread →
      owes thread' (some ⟨thread, .reserved⟩) = false := by
    intro thread' hne
    rw [Bool.eq_false_iff, ne_eq, owes_some]
    exact fun heq => hne heq.1.symm
  unfold ThreadQueue.reserveThreadSlot at hreserve
  dsimp only at hreserve
  obtain ⟨-, hs'⟩ := Option.ite_none_left_eq_some.mp hreserve
  obtain rfl := Option.some.inj hs'
  exact {
    absent := fun m hm => by
      show Function.update s.turns s.reservations _ m = none
      rw [Function.update_of_ne (Nat.ne_of_gt hm)]
      exact h.absent m (Nat.le_of_succ_le hm)
    waiters := fun thread' => by
      rw [hcount]
      show Function.update s.threadWaiters thread _ thread' = _
      rcases eq_or_ne thread' thread with rfl | hne
      · rw [Function.update_self, hself, h.waiting]
        rfl
      · rw [Function.update_of_ne hne, hother thread' hne]
        exact h.waiters thread'
    owned := fun thread' lock hlock => by
      rw [hcount]
      obtain ⟨hlt, hout⟩ := h.owned thread' lock hlock
      exact ⟨hlt, by omega⟩
    distinct := h.distinct
    uses := fun m turn lock hm hlock => by
      replace hm : Function.update s.turns s.reservations (some ⟨thread, .reserved⟩) m =
        some turn := hm
      rw [Function.update_apply] at hm
      split_ifs at hm
      · obtain rfl := Option.some.inj hm
        cases hlock
      · exact h.uses m turn lock hm hlock
    guards := fun lock => by
      refine (h.guards lock).other ?_ ?_
      · rw [h.absent s.reservations le_rfl]
        rfl
      · rw [h.absent s.reservations le_rfl]
        rfl }

theorem Inv.release (h : s.Inv) (hturn : s.turns n = some ⟨thread, .reserved⟩) :
    (s.giveBack n thread).Inv :=
  h.giveBack hturn (by decide) (guards_unused h hturn (fun _ => rfl) fun _ => rfl)

/-- The thread has a lock from here on, an old one or a new one that nobody has used. -/
theorem Inv.lockOf (h : s.Inv) (hturn : s.turns n = some ⟨thread, .reserved⟩) :
    (s.lockOf thread).1.Inv ∧ (s.lockOf thread).1.turns = s.turns ∧
      (s.lockOf thread).1.threadLocks thread = some (s.lockOf thread).2 := by
  unfold ThreadQueue.lockOf
  cases hlock : s.threadLocks thread with
  | some lock => exact ⟨h, rfl, hlock⟩
  | none =>
    refine ⟨?_, rfl, Function.update_self ..⟩
    have hnew : ∀ m, usesLock s.created (s.turns m) = false := by
      intro m
      cases hm : s.turns m with
      | none => rfl
      | some turn =>
        rw [← Bool.not_eq_true]
        intro huses
        exact absurd (h.owned _ _ (h.uses m turn s.created hm huses)).1 (lt_irrefl _)
    have hout : s.outstanding thread ≠ 0 := by
      rw [outstanding_ne_zero_iff h]
      refine ⟨n, ?_⟩
      rw [hturn, owes_some]
      exact ⟨rfl, by decide⟩
    have howned : ∀ thread' lock, Function.update s.threadLocks thread (some s.created) thread' =
        some lock → thread' = thread ∧ lock = s.created ∨ s.threadLocks thread' = some lock := by
      intro thread' lock hlock'
      rw [Function.update_apply] at hlock'
      split_ifs at hlock' with heq
      · exact .inl ⟨heq, (Option.some.inj hlock').symm⟩
      · exact .inr hlock'
    exact {
      absent := h.absent
      waiters := h.waiters
      owned := fun thread' lock hlock' => by
        rcases howned thread' lock hlock' with ⟨rfl, rfl⟩ | hold
        · exact ⟨Nat.lt_succ_self _, hout⟩
        · exact ⟨Nat.lt_succ_of_lt (h.owned thread' lock hold).1, (h.owned thread' lock hold).2⟩
      distinct := fun thread₁ thread₂ lock hlock₁ hlock₂ => by
        rcases howned thread₁ lock hlock₁ with ⟨rfl, rfl⟩ | hold₁
        · rcases howned thread₂ _ hlock₂ with ⟨rfl, -⟩ | hold₂
          · rfl
          · exact absurd (h.owned _ _ hold₂).1 (lt_irrefl _)
        · rcases howned thread₂ lock hlock₂ with ⟨-, rfl⟩ | hold₂
          · exact absurd (h.owned _ _ hold₁).1 (lt_irrefl _)
          · exact h.distinct thread₁ thread₂ lock hold₁ hold₂
      uses := fun m turn lock hm huses => by
        have hold := h.uses m turn lock hm huses
        show Function.update s.threadLocks thread (some s.created) turn.thread = some lock
        rw [Function.update_of_ne ?_]
        · exact hold
        · rintro heq
          rw [heq, hlock] at hold
          cases hold
      guards := fun lock => by
        show Guards s.turns (Function.update s.locks s.created .new lock) lock
        rw [Function.update_apply]
        split_ifs with heq
        · rw [heq]
          exact .of_unused hnew
        · exact h.guards lock }

/-- A turn that comes to its thread's lock goes on to the gate. -/
theorem Inv.enterGate (h : s.Inv) (hturn : s.turns n = some ⟨thread, phase⟩)
    (hphase : phase ≠ .released) (hlock : s.threadLocks thread = some lock)
    (hbefore : ∀ lock', lock' ≠ lock → usesLock lock' (s.turns n) = false) {state : AsyncLock ℕ}
    (hsound : state.Sound) (hfree : (s.locks lock).locked = false) (hlocked : state.locked = true)
    (hawaits : ∀ m, state.Awaits m ↔ (s.locks lock).Awaits m ∧ m ≠ n) :
    ((s.setLock lock state).enterGate n thread lock).Inv := by
  unfold ThreadQueue.enterGate
  dsimp only
  generalize hphase' : (if (s.setLock lock state).gate.acquire.callers
    (s.setLock lock state).gate.arrived = .holding then
      TurnPhase.running lock (s.setLock lock state).gate.arrived
    else .awaitingGate lock (s.setLock lock state).gate.arrived) = phase'
  have hkeeps : phase' ≠ .released ∧ (∀ lock', waitsAt lock' (some ⟨thread, phase'⟩) = false) ∧
      ∀ lock', holdsAt lock' (some ⟨thread, phase'⟩) = decide (lock = lock') := by
    rw [← hphase']
    split_ifs
    · exact ⟨TurnPhase.noConfusion, fun _ => rfl, fun _ => rfl⟩
    · exact ⟨TurnPhase.noConfusion, fun _ => rfl, fun _ => rfl⟩
  obtain ⟨hkept, hwaits, hholds⟩ := hkeeps
  have huses : ∀ lock', usesLock lock' (some ⟨thread, phase'⟩) = decide (lock = lock') := by
    intro lock'
    rw [usesLock, hwaits, hholds, Bool.false_or]
  have htaken : Guards (Function.update s.turns n (some ⟨thread, phase'⟩)) state lock :=
    (h.guards lock).take hsound hfree hlocked (hwaits lock)
      ((hholds lock).trans (decide_eq_true rfl)) hawaits
  refine (h.move hturn hphase hkept (fun lock' huse => ?_)
    (Guards.update h.guards htaken hbefore fun lock' hne => ?_)).setGate _
  · rw [huses, decide_eq_true_eq] at huse
    rwa [← huse]
  · rw [huses]
    exact decide_eq_false hne.symm

theorem Inv.runReserved (h : s.Inv) (hturn : s.turns n = some ⟨thread, .reserved⟩) :
    (s.runReserved n thread).Inv := by
  obtain ⟨hinv, hturns, hlock⟩ := h.lockOf hturn
  unfold ThreadQueue.runReserved
  generalize s.lockOf thread = p at hinv hturns hlock
  obtain ⟨s₁, lock⟩ := p
  dsimp only at hinv hturns hlock ⊢
  rw [← hturns] at hturn
  have hunused : ∀ lock', usesLock lock' (s₁.turns n) = false := by
    intro lock'
    rw [hturn]
    rfl
  have hnot : ¬(s₁.locks lock).Awaits n := by
    rw [(hinv.guards lock).awaits, (usesLock_eq_false.mp (hunused lock)).1]
    exact Bool.false_ne_true
  have hsound := (hinv.guards lock).sound.acquire hnot
  split_ifs with hacquired
  · obtain ⟨hfree, hlocked, hawaits⟩ := AsyncLock.acquire_true hacquired
    refine hinv.enterGate hturn TurnPhase.noConfusion hlock (fun lock' _ => hunused lock') hsound
      hfree hlocked fun m => ?_
    rw [hawaits]
    refine (and_iff_left_of_imp fun hm => ?_).symm
    rintro rfl
    exact hnot hm
  · obtain ⟨hlocked, hawaits⟩ := AsyncLock.acquire_false (Bool.not_eq_true _ ▸ hacquired)
    have hwaiting : ∀ lock', usesLock lock' (some ⟨thread, .awaitingLock lock⟩) =
        decide (lock = lock') := fun lock' => Bool.or_false _
    refine hinv.move hturn TurnPhase.noConfusion TurnPhase.noConfusion (fun lock' huse => ?_)
      (Guards.update hinv.guards ((hinv.guards lock).queue hsound hlocked
        (usesLock_eq_false.mp (hunused lock)).2 rfl fun m => ?_) (fun lock' _ => hunused lock')
        fun lock' hne => ?_)
    · rw [hwaiting, decide_eq_true_eq] at huse
      rwa [← huse]
    · rw [hawaits]
      split_ifs with hm
      · exact iff_of_true (.inr hm) (decide_eq_true rfl)
      · exact or_iff_left hm
    · rw [hwaiting]
      exact decide_eq_false hne.symm

omit [DecidableEq τ] in
/-- A turn at a lock uses no other. -/
theorem usesLock_of_ne {turn : Option (ThreadTurn τ)} (huses : usesLock lock turn = true)
    (lock' : ℕ) (hne : lock' ≠ lock) : usesLock lock' turn = false := by
  rcases turn with _ | ⟨thread, phase⟩
  · rfl
  · cases phase with
    | reserved => rfl
    | released => rfl
    | awaitingLock lock₁ =>
      obtain rfl : lock₁ = lock := by simpa [usesLock, waitsAt, holdsAt] using huses
      simpa [usesLock, waitsAt, holdsAt] using hne.symm
    | awaitingGate lock₁ caller =>
      obtain rfl : lock₁ = lock := by simpa [usesLock, waitsAt, holdsAt] using huses
      simpa [usesLock, waitsAt, holdsAt] using hne.symm
    | running lock₁ caller =>
      obtain rfl : lock₁ = lock := by simpa [usesLock, waitsAt, holdsAt] using huses
      simpa [usesLock, waitsAt, holdsAt] using hne.symm

/-- A turn leaves its lock. -/
theorem Inv.leave (h : s.Inv) (hturn : s.turns n = some ⟨thread, phase⟩)
    (hholds : holdsAt lock (some ⟨thread, phase⟩ : Option (ThreadTurn τ)) = true) :
    (s.leave n thread lock).Inv := by
  have huses : usesLock lock (s.turns n) = true := by rw [hturn, usesLock, hholds, Bool.or_true]
  have hphase : phase ≠ .released := by
    rintro rfl
    cases hholds
  rw [← hturn] at hholds
  exact h.giveBack hturn hphase (Guards.update h.guards ((h.guards lock).release hholds rfl)
    (usesLock_of_ne huses) fun _ _ => rfl)

/-- A turn resumes at its lock: it has the lock, or was cancelled and goes. -/
theorem Inv.resumeLock (h : s.Inv) (hturn : s.turns n = some ⟨thread, .awaitingLock lock⟩)
    (hresume : s.resume n ⟨thread, .awaitingLock lock⟩ = some s') : s'.Inv := by
  have hwaits : waitsAt lock (some ⟨thread, .awaitingLock lock⟩ : Option (ThreadTurn τ)) = true :=
    decide_eq_true rfl
  have huses : usesLock lock (some ⟨thread, .awaitingLock lock⟩ : Option (ThreadTurn τ)) = true :=
    by rw [usesLock, hwaits, Bool.true_or]
  have hlock : s.threadLocks thread = some lock := h.uses n _ lock hturn huses
  have hbefore : ∀ lock', lock' ≠ lock → usesLock lock' (s.turns n) = false := by
    rw [hturn]
    exact usesLock_of_ne huses
  obtain ⟨⟨state, acquired⟩, hstate, rfl⟩ := Option.map_eq_some_iff.mp hresume
  obtain ⟨hsound, -, hawaits, hhad, hstays⟩ := (h.guards lock).sound.resume hstate
  cases acquired with
  | true =>
    obtain ⟨hfree, hlocked⟩ := hhad rfl
    exact h.enterGate hturn TurnPhase.noConfusion hlock hbefore hsound hfree hlocked hawaits
  | false =>
    have hholds : holdsAt lock (s.turns n) = false := by
      rw [hturn]
      exact holdsAt_of_waitsAt hwaits
    refine h.giveBack hturn TurnPhase.noConfusion (Guards.update h.guards
      ((h.guards lock).queue hsound (hstays rfl) hholds rfl fun m => ?_) hbefore fun _ _ => rfl)
    rw [hawaits]
    split_ifs with hm
    · exact iff_of_false (fun hm' => hm'.2 hm) Bool.false_ne_true
    · exact and_iff_left hm

/-- A turn resumes at the gate: its body begins, or it was cancelled and goes. -/
theorem Inv.resumeGate {caller : ℕ} (h : s.Inv)
    (hturn : s.turns n = some ⟨thread, .awaitingGate lock caller⟩)
    (hresume : s.resume n ⟨thread, .awaitingGate lock caller⟩ = some s') : s'.Inv := by
  have hholds : holdsAt lock (some ⟨thread, .awaitingGate lock caller⟩ : Option (ThreadTurn τ)) =
    true := decide_eq_true rfl
  obtain ⟨gate, -, rfl⟩ := Option.map_eq_some_iff.mp hresume
  split_ifs
  · refine (h.setGate gate).move hturn TurnPhase.noConfusion TurnPhase.noConfusion
      (fun lock' huse => ?_) fun lock' => (h.guards lock').other ?_ ?_
    · exact h.uses n _ lock' hturn huse
    · rw [hturn]
      rfl
    · rw [hturn]
      rfl
  · exact (h.setGate gate).leave hturn hholds

theorem Inv.resume {turn : ThreadTurn τ} (h : s.Inv) (hturn : s.turns n = some turn)
    (hresume : s.resume n turn = some s') : s'.Inv := by
  obtain ⟨thread, phase⟩ := turn
  cases phase with
  | awaitingLock lock => exact h.resumeLock hturn hresume
  | awaitingGate lock caller => exact h.resumeGate hturn hresume
  | reserved => cases hresume
  | running lock caller => cases hresume
  | released => cases hresume

theorem Inv.cancel {turn : ThreadTurn τ} (h : s.Inv) (hcancel : s.cancel n turn = some s') :
    s'.Inv := by
  obtain ⟨thread, phase⟩ := turn
  cases phase with
  | awaitingLock lock =>
    obtain rfl := Option.some.inj hcancel
    refine ⟨h.absent, h.waiters, h.owned, h.distinct, h.uses, fun lock' => ?_⟩
    show Guards s.turns (Function.update s.locks lock ((s.locks lock).cancel n) lock') lock'
    rw [Function.update_apply]
    split_ifs with heq
    · rw [heq]
      exact {
        sound := (h.guards lock).sound.cancel
        awaits := fun m => AsyncLock.awaits_cancel.trans ((h.guards lock).awaits m)
        locked := (h.guards lock).locked
        unique := (h.guards lock).unique }
    · exact h.guards lock'
  | awaitingGate lock caller =>
    obtain ⟨gate, -, rfl⟩ := Option.map_eq_some_iff.mp hcancel
    exact h.setGate gate
  | reserved => cases hcancel
  | running lock caller => cases hcancel
  | released => cases hcancel

theorem Inv.finish {turn : ThreadTurn τ} (h : s.Inv) (hturn : s.turns n = some turn)
    (hfinish : s.finish n turn = some s') : s'.Inv := by
  obtain ⟨thread, phase⟩ := turn
  cases phase with
  | running lock caller =>
    obtain ⟨gate, -, rfl⟩ := Option.map_eq_some_iff.mp hfinish
    exact (h.setGate gate).leave hturn (decide_eq_true rfl)
  | reserved => cases hfinish
  | awaitingLock lock => cases hfinish
  | awaitingGate lock caller => cases hfinish
  | released => cases hfinish

omit [DecidableEq τ] in
theorem consume_spec {use : τ → ThreadQueue τ} (hconsume : s.consume n use = some s') :
    ∃ thread, s.turns n = some ⟨thread, .reserved⟩ ∧ s' = use thread := by
  unfold consume at hconsume
  split at hconsume
  · next thread hturn => exact ⟨thread, hturn, (Option.some.inj hconsume).symm⟩
  · cases hconsume

theorem Inv.step {a : QueueLabel τ} (h : s.Inv) (hstep : s.next a = some s') : s'.Inv := by
  cases a with
  | reserve thread =>
    obtain rfl := Option.some.inj hstep
    cases hreserve : s.reserveThreadSlot thread with
    | none => exact h
    | some s₁ => exact h.reserveThreadSlot hreserve
  | release n =>
    obtain ⟨thread, hturn, rfl⟩ := consume_spec hstep
    exact h.release hturn
  | run n =>
    obtain ⟨thread, hturn, rfl⟩ := consume_spec hstep
    exact h.runReserved hturn
  | resume n =>
    obtain ⟨turn, hturn, hresume⟩ := Option.bind_eq_some_iff.mp hstep
    exact h.resume hturn hresume
  | cancel n =>
    obtain ⟨turn, -, hcancel⟩ := Option.bind_eq_some_iff.mp hstep
    exact h.cancel hcancel
  | finish n =>
    obtain ⟨turn, hturn, hfinish⟩ := Option.bind_eq_some_iff.mp hstep
    exact h.finish hturn hfinish
  | reconfigure depth limit =>
    obtain rfl := Option.some.inj hstep
    exact h.reconfigure depth limit

theorem inv_of_reachable {depth limit : ℤ} (h : (threadQueues τ depth limit).Reachable s) :
    s.Inv := by
  refine h.invariant (p := fun s : ThreadQueue τ => s.Inv) ?_ ?_
  · rintro _ rfl
    exact inv_start depth limit
  · exact fun _ _ _ hinv hstep => hinv.step hstep

/-! ## What the queue of a thread keeps -/

/-- A thread's turns run one at a time, its counter is the number of its reservations, and a
reservation is refused where this has reached the depth; without reservations a thread has no
entries. -/
structure Serialized (s : ThreadQueue τ) (thread : τ) : Prop where
  one : ∀ m n, runsFor thread (s.turns m) = true → runsFor thread (s.turns n) = true → m = n
  counted : (s.threadWaiters thread).getD 0 = s.outstanding thread
  refused : s.reserveThreadSlot thread = none ↔ s.threadQueueDepth ≤ s.outstanding thread
  drained : s.outstanding thread = 0 → s.threadLocks thread = none ∧ s.threadWaiters thread = none

theorem runsFor_iff {turn : Option (ThreadTurn τ)} : runsFor thread turn = true ↔
    ∃ lock caller, turn = some ⟨thread, .running lock caller⟩ := by
  unfold runsFor
  constructor
  · intro h
    split at h
    · next thread' lock caller =>
      obtain rfl := of_decide_eq_true h
      exact ⟨lock, caller, rfl⟩
    · cases h
  · rintro ⟨lock, caller, rfl⟩
    exact decide_eq_true rfl

theorem serialized_of_reachable {depth limit : ℤ}
    (h : (threadQueues τ depth limit).Reachable s) (thread : τ) : s.Serialized thread := by
  have hinv := inv_of_reachable h
  refine ⟨fun m n hm hn => ?_, hinv.waiting thread, ?_, fun hout => ⟨?_, ?_⟩⟩
  · obtain ⟨lock, caller, hm⟩ := runsFor_iff.mp hm
    obtain ⟨lock', caller', hn⟩ := runsFor_iff.mp hn
    have hlock := hinv.uses m _ lock hm (by simp [usesLock, holdsAt])
    have hlock' := hinv.uses n _ lock' hn (by simp [usesLock, holdsAt])
    obtain rfl : lock = lock' := Option.some.inj (hlock.symm.trans hlock')
    refine (hinv.guards lock).unique m n ?_ ?_
    · rw [hm]
      exact decide_eq_true rfl
    · rw [hn]
      exact decide_eq_true rfl
  · unfold ThreadQueue.reserveThreadSlot
    dsimp only
    rw [hinv.waiting]
    constructor
    · intro hnone
      by_contra hroom
      rw [if_neg hroom] at hnone
      cases hnone
    · exact fun hfull => if_pos hfull
  · cases hlock : s.threadLocks thread with
    | none => rfl
    | some lock => exact absurd hout (hinv.owned thread lock hlock).2
  · rw [hinv.waiters, if_pos hout]

/-- A turn, one behind it that is cancelled, a message that is refused; then one more turn, under
a new lock. -/
def turnAfterTurn : List (QueueLabel String) :=
  [.reserve "t", .run 0, .reserve "t", .run 1, .reserve "t", .cancel 1, .finish 0, .resume 1,
    .reserve "t", .run 2]

theorem serialized_turn_after_turn : ∃ s, (threadQueues String 2 1).Reachable s ∧
    s.turns 2 = some ⟨"t", .running 1 1⟩ ∧ s.threadLocks "t" = some 1 ∧ s.Serialized "t" := by
  obtain ⟨s, hs, hp⟩ := System.Reachable.of_foldlM (S := threadQueues String 2 1)
    (f := next) (s := start 2 1)
    (p := fun s => s.turns 2 = some ⟨"t", .running 1 1⟩ ∧ s.threadLocks "t" = some 1)
    (l := turnAfterTurn) (fun _ _ _ h => h) rfl (by decide +kernel)
  obtain ⟨hruns, hlock⟩ := of_decide_eq_true hp
  exact ⟨s, hs, hruns, hlock, serialized_of_reachable hs "t"⟩

end ThreadQueue

end TaiSkeleton.Conversations
