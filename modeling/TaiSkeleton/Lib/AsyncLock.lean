import Mathlib.Data.List.Nodup

/-!
# A lock of tasks that take turns on a thread

`asyncio.Lock`: a task that finds the lock taken, or others before it, awaits a future in a queue. A
release wakes the first of them; it takes the lock when it resumes, and nobody gets before it. A
task that is cancelled while it waits leaves the queue when it resumes, and wakes the next one
where the lock is free.
-/

namespace Lib

/-- The future that a waiter awaits. -/
inductive LockFuture where
  | pending
  /-- `set_result` has been called. A cancellation after it is thrown in when the task resumes. -/
  | woken (mustCancel : Bool)
  | cancelled
deriving DecidableEq

namespace LockFuture

def isWoken : LockFuture → Bool
  | woken _ => true
  | _ => false

/-- The task that awaits the future is cancelled. -/
def cancel : LockFuture → LockFuture
  | pending => cancelled
  | woken _ => woken true
  | cancelled => cancelled

@[simp] theorem isWoken_cancel (future : LockFuture) : future.cancel.isWoken = future.isWoken := by
  cases future <;> rfl

end LockFuture

/-- The lock, with the queue of its waiters. -/
structure AsyncLock (ι : Type) where
  locked : Bool
  waiters : List (ι × LockFuture)

namespace AsyncLock

variable {ι : Type} [DecidableEq ι]

def new : AsyncLock ι := ⟨false, []⟩

/-- `_wake_up_first` -/
def wakeUpFirst : List (ι × LockFuture) → List (ι × LockFuture)
  | (task, .pending) :: waiters => (task, .woken false) :: waiters
  | waiters => waiters

/-- `acquire` as far as its `await`, and whether it has the lock without one. -/
def acquire (l : AsyncLock ι) (task : ι) : AsyncLock ι × Bool :=
  if l.locked = false ∧ ∀ w ∈ l.waiters, w.2 = .cancelled then ({ l with locked := true }, true)
  else ({ l with waiters := l.waiters ++ [(task, .pending)] }, false)

/-- `release`, without effect (but for its error) on a lock that is free. -/
def release (l : AsyncLock ι) : AsyncLock ι :=
  if l.locked then ⟨false, wakeUpFirst l.waiters⟩ else l

def cancel (l : AsyncLock ι) (task : ι) : AsyncLock ι :=
  { l with waiters := l.waiters.map fun (i, future) =>
      (i, if i = task then future.cancel else future) }

/-- The queue after `remove`. -/
def without (l : AsyncLock ι) (task : ι) : List (ι × LockFuture) :=
  l.waiters.filter fun (i, _) => i ≠ task

/-- `acquire` from its `await` on, and whether it has the lock. -/
def resume (l : AsyncLock ι) (task : ι) : Option (AsyncLock ι × Bool) :=
  match l.waiters.lookup task with
  | none | some .pending => none
  | some (.woken false) => some (⟨true, l.without task⟩, true)
  | some (.woken true) | some .cancelled =>
    some (⟨l.locked, if l.locked then l.without task else wakeUpFirst (l.without task)⟩, false)

/-! ## What holds of a lock -/

/-- The task waits for the lock. -/
def Awaits (l : AsyncLock ι) (task : ι) : Prop := task ∈ l.waiters.map Prod.fst

/-- A waiter that is woken is the first one, and the lock is free until it resumes. -/
structure Sound (l : AsyncLock ι) : Prop where
  nodup : (l.waiters.map Prod.fst).Nodup
  behind : ∀ w ∈ l.waiters.tail, w.2.isWoken = false
  free : ∀ w ∈ l.waiters, w.2.isWoken = true → l.locked = false

variable {l l' : AsyncLock ι} {task i : ι} {acquired : Bool}

omit [DecidableEq ι] in
theorem sound_new : (new : AsyncLock ι).Sound := ⟨List.nodup_nil, by simp [new], by simp [new]⟩

omit [DecidableEq ι] in
@[simp] theorem map_wakeUpFirst (waiters : List (ι × LockFuture)) :
    (wakeUpFirst waiters).map Prod.fst = waiters.map Prod.fst := by
  unfold wakeUpFirst
  split <;> rfl

omit [DecidableEq ι] in
@[simp] theorem tail_wakeUpFirst (waiters : List (ι × LockFuture)) :
    (wakeUpFirst waiters).tail = waiters.tail := by
  unfold wakeUpFirst
  split <;> rfl

omit [DecidableEq ι] in
/-- On a free lock the first waiter may be woken. -/
theorem Sound.wakeUpFirst {waiters : List (ι × LockFuture)}
    (hnodup : (waiters.map Prod.fst).Nodup) (hbehind : ∀ w ∈ waiters.tail, w.2.isWoken = false) :
    (⟨false, AsyncLock.wakeUpFirst waiters⟩ : AsyncLock ι).Sound where
  nodup := by rwa [map_wakeUpFirst]
  behind := by rwa [tail_wakeUpFirst]
  free _ _ _ := rfl

/-! ## Acquire -/

omit [DecidableEq ι] in
/-- The lock is had at once where it is free and nobody is woken. -/
theorem Sound.acquire (h : l.Sound) (hnew : ¬l.Awaits task) : (l.acquire task).1.Sound := by
  unfold AsyncLock.acquire
  split_ifs with hfree
  · refine ⟨h.nodup, h.behind, fun w hmem hwoken => ?_⟩
    rw [hfree.2 w hmem] at hwoken
    cases hwoken
  · refine ⟨?_, ?_, ?_⟩
    · show ((l.waiters ++ [(task, LockFuture.pending)]).map Prod.fst).Nodup
      rw [List.map_append, List.map_singleton, List.nodup_append]
      refine ⟨h.nodup, List.nodup_singleton _, fun i hi j hj => ?_⟩
      rw [List.mem_singleton.mp hj]
      rintro rfl
      exact hnew hi
    · intro w hmem
      replace hmem : w ∈ (l.waiters ++ [(task, LockFuture.pending)]).tail := hmem
      cases hwaiters : l.waiters with
      | nil => simp [hwaiters] at hmem
      | cons first rest =>
        rw [hwaiters, List.cons_append, List.tail_cons, List.mem_append] at hmem
        rcases hmem with hmem | hmem
        · exact h.behind w (by rwa [hwaiters])
        · rw [List.mem_singleton.mp hmem]
          rfl
    · intro w hmem hwoken
      rcases List.mem_append.mp hmem with hmem | hmem
      · exact h.free w hmem hwoken
      · rw [List.mem_singleton.mp hmem] at hwoken
        cases hwoken

omit [DecidableEq ι] in
theorem acquire_true (h : (l.acquire task).2 = true) :
    l.locked = false ∧ (l.acquire task).1.locked = true ∧
      ∀ i, (l.acquire task).1.Awaits i ↔ l.Awaits i := by
  unfold acquire at h ⊢
  split_ifs at h ⊢ with hfree
  exact ⟨hfree.1, rfl, fun i => Iff.rfl⟩

omit [DecidableEq ι] in
theorem acquire_false (h : (l.acquire task).2 = false) :
    (l.acquire task).1.locked = l.locked ∧
      ∀ i, (l.acquire task).1.Awaits i ↔ l.Awaits i ∨ i = task := by
  unfold acquire at h ⊢
  split_ifs at h ⊢ with hfree
  refine ⟨rfl, fun i => ?_⟩
  unfold Awaits
  rw [List.map_append, List.mem_append, List.map_singleton, List.mem_singleton]

/-! ## Release -/

omit [DecidableEq ι] in
theorem Sound.release (h : l.Sound) : l.release.Sound := by
  unfold AsyncLock.release
  split_ifs
  · exact .wakeUpFirst h.nodup h.behind
  · exact h

omit [DecidableEq ι] in
@[simp] theorem locked_release : l.release.locked = false := by
  unfold release
  split_ifs with hlocked
  · rfl
  · exact Bool.eq_false_iff.mpr hlocked

omit [DecidableEq ι] in
@[simp] theorem awaits_release : l.release.Awaits i ↔ l.Awaits i := by
  unfold release Awaits
  split_ifs
  · rw [map_wakeUpFirst]
  · rfl

/-! ## Cancel -/

theorem awaits_cancel : (l.cancel task).Awaits i ↔ l.Awaits i := by
  unfold cancel Awaits
  rw [List.map_map]
  rfl

theorem Sound.cancel (h : l.Sound) : (l.cancel task).Sound := by
  refine ⟨?_, ?_, ?_⟩
  · unfold AsyncLock.cancel
    rw [List.map_map]
    exact h.nodup
  · intro w hmem
    unfold AsyncLock.cancel at hmem
    rw [← List.map_tail] at hmem
    obtain ⟨w', hmem', rfl⟩ := List.mem_map.mp hmem
    have hasleep := h.behind w' hmem'
    dsimp only
    split_ifs
    · rwa [LockFuture.isWoken_cancel]
    · exact hasleep
  · intro w hmem hwoken
    obtain ⟨w', hmem', rfl⟩ := List.mem_map.mp hmem
    refine h.free w' hmem' ?_
    dsimp only at hwoken
    split_ifs at hwoken
    · rwa [LockFuture.isWoken_cancel] at hwoken
    · exact hwoken

/-! ## Resume -/

theorem mem_without {w : ι × LockFuture} : w ∈ l.without task ↔ w ∈ l.waiters ∧ w.1 ≠ task := by
  unfold without
  rw [List.mem_filter, decide_eq_true_eq]

theorem nodup_without (h : l.Sound) : ((l.without task).map Prod.fst).Nodup :=
  h.nodup.sublist (List.filter_sublist.map _)

/-- Behind the first one of those that stay nobody is woken. -/
theorem behind_without (h : l.Sound) : ∀ w ∈ (l.without task).tail, w.2.isWoken = false := by
  intro w hmem
  unfold without at hmem
  cases hwaiters : l.waiters with
  | nil => simp [hwaiters] at hmem
  | cons first rest =>
    have hbehind : ∀ w ∈ rest, w.2.isWoken = false := by
      have := h.behind
      rwa [hwaiters] at this
    refine hbehind w ?_
    rw [hwaiters, List.filter_cons] at hmem
    split_ifs at hmem
    · exact List.mem_of_mem_filter hmem
    · exact List.mem_of_mem_filter (List.mem_of_mem_tail hmem)

theorem map_without :
    (l.without task).map Prod.fst = (l.waiters.map Prod.fst).filter (· ≠ task) := by
  unfold without
  rw [List.filter_map]
  rfl

omit [DecidableEq ι] in
/-- One waiter is woken at most. -/
theorem Sound.asleep (h : l.Sound) {future : LockFuture} (hmem : (task, future) ∈ l.waiters)
    (hwoken : future.isWoken = true) {w : ι × LockFuture} (hw : w ∈ l.waiters)
    (hne : w.1 ≠ task) : w.2.isWoken = false := by
  have hbehind := h.behind
  cases hwaiters : l.waiters with
  | nil => simp [hwaiters] at hmem
  | cons first rest =>
    rw [hwaiters] at hmem hw hbehind
    rcases List.mem_cons.mp hmem with rfl | hmem
    · rcases List.mem_cons.mp hw with rfl | hw
      · exact absurd rfl hne
      · exact hbehind w hw
    · have hasleep := hbehind _ hmem
      rw [hwoken] at hasleep
      cases hasleep

/-- What a resumed waiter that was cancelled leaves. -/
theorem Sound.withdraw (h : l.Sound) (task : ι) :
    (⟨l.locked, if l.locked then l.without task else AsyncLock.wakeUpFirst (l.without task)⟩ :
      AsyncLock ι).Sound := by
  split_ifs with hlocked
  · refine ⟨nodup_without h, behind_without h, fun w hmem hwoken => ?_⟩
    exact h.free w (mem_without.mp hmem).1 hwoken
  · rw [Bool.eq_false_iff.mpr hlocked]
    exact .wakeUpFirst (nodup_without h) (behind_without h)

/-- A resumed waiter is out of the queue, and has the lock only where it was free. -/
theorem Sound.resume (h : l.Sound) (hresume : l.resume task = some (l', acquired)) :
    l'.Sound ∧ l.Awaits task ∧ (∀ i, l'.Awaits i ↔ l.Awaits i ∧ i ≠ task) ∧
      (acquired = true → l.locked = false ∧ l'.locked = true) ∧
      (acquired = false → l'.locked = l.locked) := by
  have hawaits : ∀ i, i ∈ (l.without task).map Prod.fst ↔ l.Awaits i ∧ i ≠ task := by
    intro i
    rw [map_without, List.mem_filter, decide_eq_true_eq]
    exact Iff.rfl
  have hout : ∀ i, i ∈ (if l.locked then l.without task else
      AsyncLock.wakeUpFirst (l.without task)).map Prod.fst ↔ l.Awaits i ∧ i ≠ task := by
    intro i
    split_ifs
    · exact hawaits i
    · rw [map_wakeUpFirst]
      exact hawaits i
  unfold AsyncLock.resume at hresume
  cases hlookup : l.waiters.lookup task with
  | none =>
    rw [hlookup] at hresume
    cases hresume
  | some future =>
    have hmem : (task, future) ∈ l.waiters := by
      obtain ⟨l₁, l₂, hwaiters, -⟩ := List.lookup_eq_some_iff.mp hlookup
      rw [hwaiters]
      exact List.mem_append_right _ List.mem_cons_self
    have htask : l.Awaits task := List.mem_map.mpr ⟨_, hmem, rfl⟩
    rw [hlookup] at hresume
    cases future with
    | pending => cases hresume
    | cancelled =>
      obtain ⟨rfl, rfl⟩ := Prod.mk.inj (Option.some.inj hresume)
      exact ⟨h.withdraw task, htask, hout, (fun h => by cases h), fun _ => rfl⟩
    | woken mustCancel =>
      cases mustCancel with
      | true =>
        obtain ⟨rfl, rfl⟩ := Prod.mk.inj (Option.some.inj hresume)
        exact ⟨h.withdraw task, htask, hout, (fun h => by cases h), fun _ => rfl⟩
      | false =>
        obtain ⟨rfl, rfl⟩ := Prod.mk.inj (Option.some.inj hresume)
        refine ⟨⟨nodup_without h, behind_without h, fun w hw hwoken => ?_⟩, htask, hawaits,
          fun _ => ⟨h.free _ hmem rfl, rfl⟩, fun h => by cases h⟩
        obtain ⟨hw, hne⟩ := mem_without.mp hw
        rw [h.asleep hmem rfl hw hne] at hwoken
        cases hwoken

end AsyncLock

end Lib
