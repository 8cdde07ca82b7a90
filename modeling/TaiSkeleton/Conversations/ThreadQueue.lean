import TaiSkeleton.Lib.AsyncLock
import TaiSkeleton.Conversations.ConcurrencyGate

/-!
# The turns of a thread

`TurnCaps` reserves a place in the queue of a thread for a message, and runs its turn under the
thread's lock and, inside it, under the ceiling of the worker. The last reservation of a thread to
be given back takes the counter and the lock of the thread with it, and the next one brings a new
lock.
A label is what runs between two awaits; reservations are numbered in their order.
-/

namespace TaiSkeleton.Conversations

open Lib

/-- Where the task of a reservation is. -/
inductive TurnPhase where
  | reserved
  /-- In `run_reserved`, at the lock of the thread. -/
  | awaitingLock (lock : ℕ)
  /-- It holds the lock, and awaits its turn at the gate. -/
  | awaitingGate (lock caller : ℕ)
  /-- The body runs. -/
  | running (lock caller : ℕ)
  | released
deriving DecidableEq

structure ThreadTurn (τ : Type) where
  thread : τ
  phase : TurnPhase
deriving DecidableEq

/-- The part of `TurnCaps` that serializes the turns of a thread, and the tasks that use it. -/
structure ThreadQueue (τ : Type) where
  threadQueueDepth : ℤ
  threadLocks : τ → Option ℕ
  threadWaiters : τ → Option ℤ
  locks : ℕ → AsyncLock ℕ
  /-- How many locks have been created. -/
  created : ℕ
  gate : ConcurrencyGate
  turns : ℕ → Option (ThreadTurn τ)
  /-- How many reservations have been made. -/
  reservations : ℕ

variable {τ : Type} [DecidableEq τ]

namespace ThreadQueue

variable (s : ThreadQueue τ)

def setTurn (n : ℕ) (thread : τ) (phase : TurnPhase) : ThreadQueue τ :=
  { s with turns := Function.update s.turns n (some ⟨thread, phase⟩) }

def setLock (lock : ℕ) (state : AsyncLock ℕ) : ThreadQueue τ :=
  { s with locks := Function.update s.locks lock state }

/-- `none` is the `ThreadQueueOverflowError`. -/
def reserveThreadSlot (thread : τ) : Option (ThreadQueue τ) :=
  let waiting := (s.threadWaiters thread).getD 0
  if s.threadQueueDepth ≤ waiting then none
  else some { s.setTurn s.reservations thread .reserved with
    threadWaiters := Function.update s.threadWaiters thread (some (waiting + 1))
    reservations := s.reservations + 1 }

def releaseThreadSlot (thread : τ) : ThreadQueue τ :=
  let remaining := (s.threadWaiters thread).getD 0 - 1
  if remaining ≤ 0 then
    { s with
      threadWaiters := Function.update s.threadWaiters thread none
      threadLocks := match s.threadLocks thread with
        | some lock =>
          if (s.locks lock).locked then s.threadLocks
          else Function.update s.threadLocks thread none
        | none => s.threadLocks }
  else { s with threadWaiters := Function.update s.threadWaiters thread (some remaining) }

/-- The reservation is given back. -/
def giveBack (n : ℕ) (thread : τ) : ThreadQueue τ :=
  (s.setTurn n thread .released).releaseThreadSlot thread

/-- The lock is had: `_gate.held()` is entered. -/
def enterGate (n : ℕ) (thread : τ) (lock : ℕ) : ThreadQueue τ :=
  let caller := s.gate.arrived
  let gate := s.gate.acquire
  { s.setTurn n thread
      (if gate.callers caller = .holding then .running lock caller
      else .awaitingGate lock caller) with gate }

/-- `run_reserved` is left from inside the lock. -/
def leave (n : ℕ) (thread : τ) (lock : ℕ) : ThreadQueue τ :=
  (s.setLock lock (s.locks lock).release).giveBack n thread

/-- `_thread_locks.setdefault(thread_id, asyncio.Lock())` -/
def lockOf (thread : τ) : ThreadQueue τ × ℕ :=
  match s.threadLocks thread with
  | some lock => (s, lock)
  | none =>
    ({ s.setLock s.created .new with
      threadLocks := Function.update s.threadLocks thread (some s.created)
      created := s.created + 1 }, s.created)

/-- `run_reserved` as far as its first await, or as its body. -/
def runReserved (n : ℕ) (thread : τ) : ThreadQueue τ :=
  let (s, lock) := s.lockOf thread
  let (state, acquired) := (s.locks lock).acquire n
  if acquired then (s.setLock lock state).enterGate n thread lock
  else (s.setLock lock state).setTurn n thread (.awaitingLock lock)

/-- `run_reserved` from one of its awaits on. -/
def resume (n : ℕ) : ThreadTurn τ → Option (ThreadQueue τ)
  | ⟨thread, .awaitingLock lock⟩ =>
    ((s.locks lock).resume n).map fun (state, acquired) =>
      if acquired then (s.setLock lock state).enterGate n thread lock
      else (s.setLock lock state).giveBack n thread
  | ⟨thread, .awaitingGate lock caller⟩ =>
    (s.gate.resume caller).map fun gate =>
      if gate.callers caller = .holding then
        { s with gate }.setTurn n thread (.running lock caller)
      else { s with gate }.leave n thread lock
  | _ => none

/-- The task is cancelled at one of the awaits of `run_reserved`. -/
def cancel (n : ℕ) : ThreadTurn τ → Option (ThreadQueue τ)
  | ⟨_, .awaitingLock lock⟩ => some (s.setLock lock ((s.locks lock).cancel n))
  | ⟨_, .awaitingGate _ caller⟩ => (s.gate.cancel caller).map fun gate => { s with gate }
  | _ => none

/-- The body ends, in whichever way. -/
def finish (n : ℕ) : ThreadTurn τ → Option (ThreadQueue τ)
  | ⟨thread, .running lock caller⟩ =>
    (s.gate.finish caller).map fun gate => { s with gate }.leave n thread lock
  | _ => none

/-- `reconfigure` -/
def reconfigure (threadQueueDepth maxConcurrentTurns : ℤ) : ThreadQueue τ :=
  { s with threadQueueDepth, gate := s.gate.setLimit maxConcurrentTurns }

end ThreadQueue

/-- A reservation is taken up by `run`, or by `release`; a reservation that is refused is none. -/
inductive QueueLabel (τ : Type) where
  | reserve (thread : τ)
  | release (n : ℕ)
  | run (n : ℕ)
  | resume (n : ℕ)
  | cancel (n : ℕ)
  | finish (n : ℕ)
  | reconfigure (threadQueueDepth maxConcurrentTurns : ℤ)
deriving DecidableEq

namespace ThreadQueue

/-- A reservation that nothing has consumed yet is consumed. -/
def consume (s : ThreadQueue τ) (n : ℕ) (use : τ → ThreadQueue τ) : Option (ThreadQueue τ) :=
  match s.turns n with
  | some ⟨thread, .reserved⟩ => some (use thread)
  | _ => none

def next (s : ThreadQueue τ) : QueueLabel τ → Option (ThreadQueue τ)
  | .reserve thread => some ((s.reserveThreadSlot thread).getD s)
  | .release n => s.consume n (s.giveBack n)
  | .run n => s.consume n (s.runReserved n)
  | .resume n => (s.turns n).bind (s.resume n)
  | .cancel n => (s.turns n).bind (s.cancel n)
  | .finish n => (s.turns n).bind (s.finish n)
  | .reconfigure depth limit => some (s.reconfigure depth limit)

def start (threadQueueDepth maxConcurrentTurns : ℤ) : ThreadQueue τ where
  threadQueueDepth := threadQueueDepth
  threadLocks _ := none
  threadWaiters _ := none
  locks _ := .new
  created := 0
  gate := .start maxConcurrentTurns
  turns _ := none
  reservations := 0

end ThreadQueue

/-- Every interleaving of the tasks. -/
def threadQueues (τ : Type) [DecidableEq τ] (threadQueueDepth maxConcurrentTurns : ℤ) :
    System (ThreadQueue τ) (QueueLabel τ) where
  init s := s = .start threadQueueDepth maxConcurrentTurns
  step s a s' := s.next a = some s'

/-! ## What is said of a turn -/

/-- It waits for the lock. -/
def waitsAt (lock : ℕ) : Option (ThreadTurn τ) → Bool
  | some ⟨_, .awaitingLock lock'⟩ => lock' = lock
  | _ => false

/-- It holds the lock. -/
def holdsAt (lock : ℕ) : Option (ThreadTurn τ) → Bool
  | some ⟨_, .awaitingGate lock' _⟩ | some ⟨_, .running lock' _⟩ => lock' = lock
  | _ => false

/-- It has a reservation of the thread. -/
def owes (thread : τ) : Option (ThreadTurn τ) → Bool
  | some ⟨thread', phase⟩ => thread' = thread ∧ phase ≠ .released
  | none => false

/-- Its body runs, for the thread. -/
def runsFor (thread : τ) : Option (ThreadTurn τ) → Bool
  | some ⟨thread', .running _ _⟩ => thread' = thread
  | _ => false

namespace ThreadQueue

/-- How many reservations of the thread have not been given back. -/
def outstanding (s : ThreadQueue τ) (thread : τ) : ℕ :=
  (List.range s.reservations).countP fun n => owes thread (s.turns n)

end ThreadQueue

/-! ## A lock and its turns -/

/-- The waiters and the holder of a lock are the turns that say so. -/
structure Guards (turns : ℕ → Option (ThreadTurn τ)) (state : AsyncLock ℕ) (lock : ℕ) : Prop where
  sound : state.Sound
  awaits : ∀ n, state.Awaits n ↔ waitsAt lock (turns n) = true
  locked : state.locked = true ↔ ∃ n, holdsAt lock (turns n) = true
  unique : ∀ m n, holdsAt lock (turns m) = true → holdsAt lock (turns n) = true → m = n

theorem apply_update {α β : Type} (p : α → β) (f : ℕ → α) (n : ℕ) (a : α) (m : ℕ) :
    p (Function.update f n a m) = if m = n then p a else p (f m) := by
  rw [Function.update_apply]
  split_ifs <;> rfl

/-- It waits for the lock or holds it. -/
def usesLock (lock : ℕ) (turn : Option (ThreadTurn τ)) : Bool :=
  waitsAt lock turn || holdsAt lock turn

omit [DecidableEq τ] in
theorem usesLock_eq_false {lock : ℕ} {turn : Option (ThreadTurn τ)} :
    usesLock lock turn = false ↔ waitsAt lock turn = false ∧ holdsAt lock turn = false :=
  Bool.or_eq_false_iff

omit [DecidableEq τ] in
theorem holdsAt_of_waitsAt {lock lock' : ℕ} {turn : Option (ThreadTurn τ)}
    (h : waitsAt lock turn = true) : holdsAt lock' turn = false := by
  unfold waitsAt at h
  split at h
  · rfl
  · cases h

namespace Guards

variable {turns : ℕ → Option (ThreadTurn τ)} {locks : ℕ → AsyncLock ℕ} {state state' : AsyncLock ℕ}
  {lock n : ℕ} {turn : Option (ThreadTurn τ)} {acquired : Bool}

omit [DecidableEq τ] in
/-- A new lock that no turn uses. -/
theorem of_unused (h : ∀ m, usesLock lock (turns m) = false) : Guards turns .new lock where
  sound := AsyncLock.sound_new
  awaits m := by
    rw [(usesLock_eq_false.mp (h m)).1]
    exact iff_of_false List.not_mem_nil Bool.false_ne_true
  locked := by
    refine iff_of_false Bool.false_ne_true ?_
    rintro ⟨m, hm⟩
    rw [(usesLock_eq_false.mp (h m)).2] at hm
    cases hm
  unique m _ hm := by
    rw [(usesLock_eq_false.mp (h m)).2] at hm
    cases hm

omit [DecidableEq τ] in
/-- Nobody holds a lock that is free. -/
theorem free (h : Guards turns state lock) (hfree : state.locked = false) (m : ℕ) :
    holdsAt lock (turns m) = false := by
  rw [← Bool.not_eq_true]
  intro hholds
  have hlocked := h.locked.mpr ⟨m, hholds⟩
  rw [hfree] at hlocked
  cases hlocked

omit [DecidableEq τ] in
/-- A turn that has nothing to do with the lock, or as much as before. -/
theorem other (h : Guards turns state lock) (hwaits : waitsAt lock turn = waitsAt lock (turns n))
    (hholds : holdsAt lock turn = holdsAt lock (turns n)) :
    Guards (Function.update turns n turn) state lock := by
  have hwaits' : ∀ m, waitsAt lock (Function.update turns n turn m) = waitsAt lock (turns m) := by
    intro m
    rw [apply_update (waitsAt lock)]
    split_ifs with hm
    · rw [hm, hwaits]
    · rfl
  have hholds' : ∀ m, holdsAt lock (Function.update turns n turn m) = holdsAt lock (turns m) := by
    intro m
    rw [apply_update (holdsAt lock)]
    split_ifs with hm
    · rw [hm, hholds]
    · rfl
  exact {
    sound := h.sound
    awaits := fun m => by rw [hwaits', h.awaits]
    locked := by simp only [hholds', h.locked]
    unique := fun m m' => by rw [hholds', hholds']; exact h.unique m m' }

omit [DecidableEq τ] in
/-- A turn comes into the queue or to the lock, or leaves it. -/
theorem move (h : Guards turns state lock) (hsound : state'.Sound)
    (hawaits : ∀ m, state'.Awaits m ↔ if m = n then waitsAt lock turn = true else state.Awaits m)
    (hlocked : state'.locked = true ↔
      holdsAt lock turn = true ∨ ∃ m, m ≠ n ∧ holdsAt lock (turns m) = true)
    (halone : holdsAt lock turn = true → ∀ m, m ≠ n → holdsAt lock (turns m) = false) :
    Guards (Function.update turns n turn) state' lock where
  sound := hsound
  awaits m := by
    rw [hawaits, apply_update (waitsAt lock)]
    split_ifs
    · rfl
    · exact h.awaits m
  locked := by
    rw [hlocked]
    constructor
    · rintro (hturn | ⟨m, hm, hholds⟩)
      · exact ⟨n, by rwa [Function.update_self]⟩
      · exact ⟨m, by rwa [Function.update_of_ne hm]⟩
    · rintro ⟨m, hholds⟩
      rw [apply_update (holdsAt lock)] at hholds
      split_ifs at hholds with hm
      · exact .inl hholds
      · exact .inr ⟨m, hm, hholds⟩
  unique m m' hm hm' := by
    rw [apply_update (holdsAt lock)] at hm hm'
    split_ifs at hm hm' with hn hn' hn'
    · rw [hn, hn']
    · rw [halone hm m' hn'] at hm'
      cases hm'
    · rw [halone hm' m hn] at hm
      cases hm
    · exact h.unique m m' hm hm'

omit [DecidableEq τ] in
/-- The turn comes to a lock that is free. -/
theorem take (h : Guards turns state lock) (hsound : state'.Sound) (hfree : state.locked = false)
    (hlocked : state'.locked = true) (hwaits : waitsAt lock turn = false)
    (hholds : holdsAt lock turn = true)
    (hawaits : ∀ m, state'.Awaits m ↔ state.Awaits m ∧ m ≠ n) :
    Guards (Function.update turns n turn) state' lock := by
  refine h.move hsound (fun m => ?_) (iff_of_true hlocked (.inl hholds)) fun _ m _ => h.free hfree m
  rw [hawaits, hwaits]
  split_ifs with hm
  · exact iff_of_false (fun hm' => hm'.2 hm) not_false
  · exact and_iff_left hm

omit [DecidableEq τ] in
/-- The holder gives the lock up. -/
theorem release (h : Guards turns state lock) (hn : holdsAt lock (turns n) = true)
    (hnext : usesLock lock turn = false) :
    Guards (Function.update turns n turn) state.release lock := by
  obtain ⟨hwaits, hholds⟩ := usesLock_eq_false.mp hnext
  have hnot : ¬state.Awaits n := by
    rw [h.awaits]
    intro hwaiting
    rw [holdsAt_of_waitsAt hwaiting] at hn
    cases hn
  refine h.move h.sound.release (fun m => ?_) ?_ fun hturn => ?_
  · rw [AsyncLock.awaits_release, hwaits]
    split_ifs with hm
    · rw [hm]
      exact iff_of_false hnot not_false
    · rfl
  · rw [AsyncLock.locked_release, hholds]
    refine iff_of_false Bool.false_ne_true ?_
    rintro (hturn | ⟨m, hm, hm'⟩)
    · cases hturn
    · exact hm (h.unique m n hm' hn)
  · rw [hholds] at hturn
    cases hturn

omit [DecidableEq τ] in
/-- The turn comes to wait, or leaves the queue; the lock stays with its holder. -/
theorem queue (h : Guards turns state lock) (hsound : state'.Sound)
    (hlocked : state'.locked = state.locked) (hn : holdsAt lock (turns n) = false)
    (hholds : holdsAt lock turn = false)
    (hawaits : ∀ m, state'.Awaits m ↔ if m = n then waitsAt lock turn = true else state.Awaits m) :
    Guards (Function.update turns n turn) state' lock := by
  refine h.move hsound hawaits ?_ fun hturn => ?_
  · rw [hlocked, h.locked, hholds]
    constructor
    · rintro ⟨m, hm⟩
      refine .inr ⟨m, ?_, hm⟩
      rintro rfl
      rw [hn] at hm
      cases hm
    · rintro (hturn | ⟨m, -, hm⟩)
      · cases hturn
      · exact ⟨m, hm⟩
  · rw [hholds] at hturn
    cases hturn

omit [DecidableEq τ] in
/-- The other locks do not see it. -/
theorem update (h : ∀ lock, Guards turns (locks lock) lock)
    (hlock : Guards (Function.update turns n turn) state' lock)
    (hbefore : ∀ lock', lock' ≠ lock → usesLock lock' (turns n) = false)
    (hafter : ∀ lock', lock' ≠ lock → usesLock lock' turn = false) (lock' : ℕ) :
    Guards (Function.update turns n turn) (Function.update locks lock state' lock') lock' := by
  rcases eq_or_ne lock' lock with rfl | hne
  · rwa [Function.update_self]
  · rw [Function.update_of_ne hne]
    obtain ⟨hwaits, hholds⟩ := usesLock_eq_false.mp (hbefore lock' hne)
    obtain ⟨hwaits', hholds'⟩ := usesLock_eq_false.mp (hafter lock' hne)
    exact (h lock').other (hwaits'.trans hwaits.symm) (hholds'.trans hholds.symm)

end Guards

end TaiSkeleton.Conversations
