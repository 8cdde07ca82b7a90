import TaiSkeleton.Lib.Counting
import TaiSkeleton.Lib.Run
import Mathlib.Algebra.Order.Ring.Int
import Mathlib.Logic.Function.Basic

/-!
# The ceiling of the running turns

`_ConcurrencyGate` admits the turns of a worker in the order in which they arrive. A turn that finds
the ceiling reached awaits a future, which `_admit_waiting` sets; a cancellation comes before that
or after it, but not into the midst of a call, since none of them awaits. Callers are numbered in
the order of their arrival, and a future has the number of its caller.
-/

namespace TaiSkeleton.Conversations

open Lib

/-! ## The gate -/

/-- The future that a waiter awaits. -/
inductive TurnFuture where
  | pending
  /-- `set_result` has been called. -/
  | admitted
  | cancelled
deriving DecidableEq

inductive TurnCaller where
  | absent
  /-- It awaits its future. A cancellation that finds the future done is thrown in when the caller
  resumes. -/
  | awaiting (mustCancel : Bool)
  | holding
  | gone
deriving DecidableEq

/-- A slot is given to a caller, at a count of the turns in flight and a limit. -/
structure Admission where
  caller : ℕ
  inFlight : ℤ
  limit : ℤ
deriving DecidableEq

structure ConcurrencyGate where
  limit : ℤ
  inFlight : ℤ
  waiters : List ℕ
  futures : ℕ → TurnFuture
  callers : ℕ → TurnCaller
  /-- How many callers have arrived. -/
  arrived : ℕ
  /-- Every slot that has been given. -/
  admissions : List Admission

namespace ConcurrencyGate

variable (g : ConcurrencyGate)

/-- The loop of `_admit_waiting`. -/
def admitFrom (g : ConcurrencyGate) : List ℕ → ConcurrencyGate
  | [] => { g with waiters := [] }
  | waiter :: waiters =>
    if g.inFlight < g.limit then
      if g.futures waiter ≠ .pending then admitFrom g waiters
      else admitFrom { g with
        inFlight := g.inFlight + 1
        futures := Function.update g.futures waiter .admitted
        admissions := g.admissions ++ [⟨waiter, g.inFlight, g.limit⟩] } waiters
    else { g with waiters := waiter :: waiters }

def admitWaiting : ConcurrencyGate := g.admitFrom g.waiters

def setLimit (limit : ℤ) : ConcurrencyGate := { g with limit }.admitWaiting

def release : ConcurrencyGate := { g with inFlight := g.inFlight - 1 }.admitWaiting

/-- A caller is at `state` from now on. -/
def setCaller (n : ℕ) (state : TurnCaller) : ConcurrencyGate :=
  { g with callers := Function.update g.callers n state }

/-- `_acquire` of the next caller, as far as its `await`. -/
def acquire : ConcurrencyGate :=
  if g.waiters = [] ∧ g.inFlight < g.limit then
    { g.setCaller g.arrived .holding with
      inFlight := g.inFlight + 1
      arrived := g.arrived + 1
      admissions := g.admissions ++ [⟨g.arrived, g.inFlight, g.limit⟩] }
  else
    { g.setCaller g.arrived (.awaiting false) with
      waiters := g.waiters ++ [g.arrived]
      futures := Function.update g.futures g.arrived .pending
      arrived := g.arrived + 1 }

/-- A waiter is cancelled: its future, or what resumes it where the future is done. -/
def cancel (n : ℕ) : Option ConcurrencyGate :=
  match g.callers n with
  | .awaiting _ => some
    (if g.futures n = .pending then { g with futures := Function.update g.futures n .cancelled }
    else g.setCaller n (.awaiting true))
  | _ => none

/-- `_acquire` from its `await` on. -/
def resume (n : ℕ) : Option ConcurrencyGate :=
  match g.callers n, g.futures n with
  | .awaiting _, .pending => none
  | .awaiting mustCancel, .admitted =>
    -- admitted and cancelled together: the slot is handed straight back
    if mustCancel then some (g.setCaller n .gone).release else some (g.setCaller n .holding)
  | .awaiting _, .cancelled => some { g.setCaller n .gone with waiters := g.waiters.erase n }
  | _, _ => none

/-- The turn of a holder ends, in whichever way. -/
def finish (n : ℕ) : Option ConcurrencyGate :=
  if g.callers n = .holding then some (g.setCaller n .gone).release else none

end ConcurrencyGate

inductive GateLabel where
  | acquire
  | cancel (n : ℕ)
  | resume (n : ℕ)
  | finish (n : ℕ)
  | setLimit (limit : ℤ)
deriving DecidableEq

def ConcurrencyGate.next (g : ConcurrencyGate) : GateLabel → Option ConcurrencyGate
  | .acquire => some g.acquire
  | .cancel n => g.cancel n
  | .resume n => g.resume n
  | .finish n => g.finish n
  | .setLimit limit => some (g.setLimit limit)

def ConcurrencyGate.start (limit : ℤ) : ConcurrencyGate where
  limit := limit
  inFlight := 0
  waiters := []
  futures _ := .pending
  callers _ := .absent
  arrived := 0
  admissions := []

/-- Every order of the calls on one gate. -/
def gates (limit : ℤ) : System ConcurrencyGate GateLabel where
  init g := g = .start limit
  step g a g' := g.next a = some g'

/-! ## The invariant -/

namespace ConcurrencyGate

variable (g : ConcurrencyGate)

def holds (n : ℕ) : Bool := g.callers n = .holding

/-- The caller has been admitted, and has not resumed. -/
def granted (n : ℕ) : Bool :=
  (g.callers n = .awaiting false ∨ g.callers n = .awaiting true) ∧ g.futures n = .admitted

/-- The caller waits for a slot, and nobody has cancelled it. -/
def waits (n : ℕ) : Bool :=
  (g.callers n = .awaiting false ∨ g.callers n = .awaiting true) ∧ g.futures n = .pending

/-- The caller has a slot. -/
def takes (n : ℕ) : Bool := g.holds n || g.granted n

def holders : ℕ := (List.range g.arrived).countP g.holds

/-- How many waiters have been admitted and have not resumed. -/
def grants : ℕ := (List.range g.arrived).countP g.granted

/-- What holds in the midst of `_admit_waiting` as well, with `waiters` left. -/
structure Sound (waiters : List ℕ) : Prop where
  count : g.inFlight = (List.range g.arrived).countP g.takes
  absent : ∀ n, g.arrived ≤ n → g.callers n = .absent
  queued : ∀ n ∈ waiters, n < g.arrived ∧ g.futures n ≠ .admitted ∧
    (g.callers n = .awaiting false ∨ g.callers n = .awaiting true)
  waiting : ∀ n, g.waits n = true → n ∈ waiters
  order : (g.admissions.map Admission.caller ++ waiters).Pairwise (· < ·)
  below : ∀ admission ∈ g.admissions,
    admission.inFlight < admission.limit ∧ admission.caller < g.arrived
  logged : ∀ n, g.takes n = true → n ∈ g.admissions.map Admission.caller

/-- Nobody is queued below the limit. -/
structure Inv : Prop extends Sound g g.waiters where
  full : g.waiters ≠ [] → g.limit ≤ g.inFlight

variable {g}

@[simp] theorem callers_setCaller_self {n : ℕ} {state : TurnCaller} :
    (g.setCaller n state).callers n = state := Function.update_self _ _ _

theorem callers_setCaller_of_ne {m n : ℕ} {state : TurnCaller} (h : m ≠ n) :
    (g.setCaller n state).callers m = g.callers m := Function.update_of_ne h _ _

@[simp] theorem futures_setCaller {n : ℕ} {state : TurnCaller} :
    (g.setCaller n state).futures = g.futures := rfl

/-- Nothing but the caller itself sees where it is. -/
theorem takes_setCaller_of_ne {m n : ℕ} {state : TurnCaller} (h : m ≠ n) :
    (g.setCaller n state).takes m = g.takes m := by
  simp only [takes, holds, granted, callers_setCaller_of_ne h, futures_setCaller]

theorem waits_setCaller_of_ne {m n : ℕ} {state : TurnCaller} (h : m ≠ n) :
    (g.setCaller n state).waits m = g.waits m := by
  simp only [waits, callers_setCaller_of_ne h, futures_setCaller]

theorem takes_eq (n : ℕ) : g.takes n = true ↔ g.callers n = .holding ∨
    ((g.callers n = .awaiting false ∨ g.callers n = .awaiting true) ∧
      g.futures n = .admitted) := by
  simp [takes, holds, granted]

theorem Sound.not_takes_of_mem {n : ℕ} {waiters : List ℕ} (h : g.Sound waiters)
    (hmem : n ∈ waiters) : ¬g.takes n = true := by
  obtain ⟨-, hnot, hcaller⟩ := h.queued n hmem
  rw [takes_eq]
  rintro (hholds | ⟨-, hadmitted⟩)
  · rw [hholds] at hcaller
    obtain hcaller | hcaller := hcaller <;> cases hcaller
  · exact hnot hadmitted

theorem Sound.ne_of_mem {waiter n : ℕ} {waiters : List ℕ} (h : g.Sound (waiter :: waiters))
    (hmem : n ∈ waiters) : n ≠ waiter := by
  have hqueue := (List.pairwise_append.mp h.order).2.1
  exact (List.rel_of_pairwise_cons hqueue hmem).ne'

/-! ### `_admit_waiting` -/

/-- A caller that does not wait has no place in the queue. -/
theorem Sound.drop {waiter : ℕ} {waiters : List ℕ} (h : g.Sound (waiter :: waiters))
    (hdone : g.futures waiter ≠ .pending) : g.Sound waiters where
  count := h.count
  absent := h.absent
  queued n hmem := h.queued n (List.mem_cons_of_mem _ hmem)
  waiting n hwaits := by
    obtain rfl | hmem := List.mem_cons.mp (h.waiting n hwaits)
    · simp [waits, hdone] at hwaits
    · exact hmem
  order := h.order.sublist (List.Sublist.append_left (List.sublist_cons_self _ _) _)
  below := h.below
  logged := h.logged

/-- The first of the queue is admitted. -/
theorem Sound.admitHead {waiter : ℕ} {waiters : List ℕ} (h : g.Sound (waiter :: waiters))
    (hbelow : g.inFlight < g.limit) (hpending : g.futures waiter = .pending) :
    Sound { g with
      inFlight := g.inFlight + 1
      futures := Function.update g.futures waiter .admitted
      admissions := g.admissions ++ [⟨waiter, g.inFlight, g.limit⟩] } waiters where
  count := by
    obtain ⟨hlt, hnot, hcaller⟩ := h.queued waiter List.mem_cons_self
    rw [h.count]
    refine (congrArg Nat.cast (countP_eq_succ List.nodup_range (List.mem_range.mpr hlt)
      ?_ ?_ fun n hn => ?_)).symm
    · exact Bool.eq_false_iff.mpr fun htakes => h.not_takes_of_mem List.mem_cons_self htakes
    · exact (takes_eq waiter).mpr (.inr ⟨hcaller, Function.update_self _ _ _⟩)
    · simp only [takes, holds, granted, Function.update_of_ne hn]
  absent := h.absent
  queued n hmem := by
    obtain ⟨hlt, hnot, hcaller⟩ := h.queued n (List.mem_cons_of_mem _ hmem)
    refine ⟨hlt, ?_, hcaller⟩
    show Function.update g.futures waiter .admitted n ≠ _
    rwa [Function.update_of_ne (h.ne_of_mem hmem)]
  waiting n hwaits := by
    have hn : n ≠ waiter := by
      rintro rfl
      simp [waits] at hwaits
    simp only [waits, Function.update_of_ne hn] at hwaits
    exact (List.mem_cons.mp (h.waiting n hwaits)).resolve_left hn
  order := by
    rw [List.map_append, List.append_assoc]
    exact h.order
  below admission hmem := by
    obtain hmem | hmem := List.mem_append.mp hmem
    · exact h.below admission hmem
    · obtain rfl := List.mem_singleton.mp hmem
      exact ⟨hbelow, (h.queued waiter List.mem_cons_self).1⟩
  logged n htakes := by
    rw [List.map_append, List.mem_append]
    by_cases hn : n = waiter
    · exact .inr (by simp [hn])
    · refine .inl (h.logged n ?_)
      simpa only [takes, holds, granted, Function.update_of_ne hn] using htakes

/-- `_admit_waiting` leaves nobody queued below the limit. -/
theorem Sound.admitFrom {waiters : List ℕ} (h : g.Sound waiters) : (g.admitFrom waiters).Inv := by
  induction waiters generalizing g with
  | nil => exact ⟨⟨h.count, h.absent, h.queued, h.waiting, h.order, h.below, h.logged⟩,
      fun hne => absurd rfl hne⟩
  | cons waiter waiters ih =>
    unfold ConcurrencyGate.admitFrom
    split_ifs with hbelow hdone
    · exact ih (h.drop hdone)
    · exact ih (h.admitHead hbelow (not_not.mp hdone))
    · exact ⟨⟨h.count, h.absent, h.queued, h.waiting, h.order, h.below, h.logged⟩,
        fun _ => not_lt.mp hbelow⟩

/-! ### The calls -/

theorem lt_of_takes {waiters : List ℕ} {n : ℕ} (h : g.Sound waiters)
    (htakes : g.takes n = true) : n < g.arrived := by
  obtain ⟨admission, hmem, rfl⟩ := List.mem_map.mp (h.logged n htakes)
  exact (h.below admission hmem).2

/-- A slot comes back, and goes on to the queue. -/
theorem Inv.release {n : ℕ} (h : g.Inv) (htakes : g.takes n = true) :
    (g.setCaller n .gone).release.Inv := by
  have hlt := lt_of_takes h.toSound htakes
  have hlost : (g.setCaller n .gone).takes n = false := by simp [takes, holds, granted]
  refine Sound.admitFrom (g := { g.setCaller n .gone with inFlight := g.inFlight - 1 })
    ⟨?_, fun m hm => ?_, fun m hmem => ?_, fun m hwaits => ?_, h.order, h.below, fun m hm => ?_⟩
  · show g.inFlight - 1 = _
    rw [h.count, countP_eq_succ List.nodup_range (List.mem_range.mpr hlt) hlost htakes
      fun m hm => (takes_setCaller_of_ne hm).symm, Nat.cast_add, Nat.cast_one,
      add_sub_cancel_right]
    rfl
  · rw [← h.absent m hm]
    exact callers_setCaller_of_ne (ne_of_gt (lt_of_lt_of_le hlt hm))
  · obtain ⟨hlt', hfuture, hcaller⟩ := h.queued m hmem
    have hm : m ≠ n := by
      rintro rfl
      exact h.not_takes_of_mem hmem htakes
    have hstays : (g.setCaller n .gone).callers m = g.callers m :=
      callers_setCaller_of_ne hm
    exact ⟨hlt', hfuture, hcaller.imp hstays.trans hstays.trans⟩
  · by_cases hm : m = n
    · subst hm
      simp [waits] at hwaits
    · exact h.waiting m ((waits_setCaller_of_ne hm).symm.trans hwaits)
  · by_cases hmn : m = n
    · subst hmn
      exact absurd (hlost.symm.trans hm) Bool.false_ne_true
    · exact h.logged m ((takes_setCaller_of_ne hmn).symm.trans hm)

theorem Inv.setLimit (h : g.Inv) (limit : ℤ) : (g.setLimit limit).Inv :=
  Sound.admitFrom (g := { g with limit })
    ⟨h.count, h.absent, h.queued, h.waiting, h.order, h.below, h.logged⟩

/-- Where the callers of before stand as they did, one more has arrived. -/
theorem countP_range_succ {g' : ConcurrencyGate} (h : ∀ n < g.arrived, g'.takes n = g.takes n) :
    (List.range (g.arrived + 1)).countP g'.takes =
      (List.range g.arrived).countP g.takes + if g'.takes g.arrived then 1 else 0 := by
  rw [List.range_succ, List.countP_append, List.countP_singleton]
  congr 1
  exact List.countP_congr fun n hn => by rw [h n (List.mem_range.mp hn)]

/-- A caller that arrives takes a slot, or is the last of the queue. -/
theorem Inv.acquire (h : g.Inv) : g.acquire.Inv := by
  have hsame : ∀ {n state}, n ≠ g.arrived → (g.setCaller g.arrived state).callers n =
      g.callers n := callers_setCaller_of_ne
  have hqueued : ∀ n ∈ g.waiters, n < g.arrived := fun n hmem => (h.queued n hmem).1
  have hadmitted : ∀ n ∈ g.admissions.map Admission.caller, n < g.arrived := by
    intro n hmem
    obtain ⟨admission, hlog, rfl⟩ := List.mem_map.mp hmem
    exact (h.below admission hlog).2
  have hlast : ∀ l : List ℕ, (∀ n ∈ l, n < g.arrived) → l.Pairwise (· < ·) →
      (l ++ [g.arrived]).Pairwise (· < ·) := by
    intro l hlt hsorted
    refine List.pairwise_append.mpr ⟨hsorted, List.pairwise_singleton _ _, fun n hn m hm => ?_⟩
    obtain rfl := List.mem_singleton.mp hm
    exact hlt n hn
  unfold ConcurrencyGate.acquire
  split_ifs with hfree
  · obtain ⟨hnobody, hbelow⟩ := hfree
    have horder := h.order
    rw [hnobody, List.append_nil] at horder
    refine ⟨⟨?_, fun n hn => ?_, fun n hmem => ?_, fun n hwaits => ?_, ?_, fun admission hmem => ?_,
      fun n htakes => ?_⟩, fun hne => absurd hnobody hne⟩
    · show g.inFlight + 1 = _
      rw [countP_range_succ fun n hn => ?_, h.count, if_pos]
      · norm_cast
      · exact (takes_eq _).mpr (.inl callers_setCaller_self)
      · exact takes_setCaller_of_ne (ne_of_lt hn)
    · exact (hsame (ne_of_gt hn)).trans (h.absent n (Nat.le_of_succ_le hn))
    · exact absurd (hnobody ▸ hmem) List.not_mem_nil
    · by_cases hn : n = g.arrived
      · subst hn
        simp [waits] at hwaits
      · exact h.waiting n ((waits_setCaller_of_ne hn).symm.trans hwaits)
    · show (List.map Admission.caller (g.admissions ++ _) ++ g.waiters).Pairwise (· < ·)
      rw [hnobody, List.append_nil, List.map_append]
      exact hlast _ hadmitted horder
    · obtain hmem | hmem := List.mem_append.mp hmem
      · obtain ⟨hlt, hcaller⟩ := h.below admission hmem
        exact ⟨hlt, Nat.lt_succ_of_lt hcaller⟩
      · obtain rfl := List.mem_singleton.mp hmem
        exact ⟨hbelow, Nat.lt_succ_self _⟩
    · show n ∈ (g.admissions ++ _).map Admission.caller
      rw [List.map_append, List.mem_append]
      by_cases hn : n = g.arrived
      · exact .inr (by simp [hn])
      · exact .inl (h.logged n ((takes_setCaller_of_ne hn).symm.trans htakes))
  · have hfuture : ∀ {n}, n ≠ g.arrived →
        Function.update g.futures g.arrived .pending n = g.futures n :=
      fun hn => Function.update_of_ne hn _ _
    refine ⟨⟨?_, fun n hn => ?_, fun n hmem => ?_, fun n hwaits => ?_, ?_, fun admission hmem => ?_,
      fun n htakes => ?_⟩, fun _ => ?_⟩
    · show g.inFlight = _
      rw [countP_range_succ fun n hn => ?_, h.count, if_neg, Nat.add_zero]
      · simp [takes, holds, granted]
      · have hn := ne_of_lt hn
        simp only [takes, holds, granted, hsame hn, hfuture hn]
    · exact (hsame (ne_of_gt hn)).trans (h.absent n (Nat.le_of_succ_le hn))
    · obtain hmem | hmem := List.mem_append.mp hmem
      · obtain ⟨hlt, hnot, hcaller⟩ := h.queued n hmem
        have hn := ne_of_lt hlt
        refine ⟨Nat.lt_succ_of_lt hlt, ?_, (hsame hn).symm ▸ hcaller⟩
        show Function.update g.futures g.arrived .pending n ≠ _
        rwa [hfuture hn]
      · obtain rfl := List.mem_singleton.mp hmem
        exact ⟨Nat.lt_succ_self _, by simp, .inl callers_setCaller_self⟩
    · refine List.mem_append.mpr ?_
      by_cases hn : n = g.arrived
      · exact .inr (hn ▸ List.mem_singleton_self _)
      · refine .inl (h.waiting n ?_)
        simpa only [waits, hsame hn, hfuture hn] using hwaits
    · show (g.admissions.map Admission.caller ++ (g.waiters ++ [g.arrived])).Pairwise (· < ·)
      rw [← List.append_assoc]
      refine hlast _ (fun n hmem => ?_) h.order
      exact (List.mem_append.mp hmem).elim (hadmitted n) (hqueued n)
    · obtain ⟨hlt, hcaller⟩ := h.below admission hmem
      exact ⟨hlt, Nat.lt_succ_of_lt hcaller⟩
    · have hn : n ≠ g.arrived := by
        rintro rfl
        simp [takes, holds, granted] at htakes
      refine h.logged n ?_
      simpa only [takes, holds, granted, hsame hn, hfuture hn] using htakes
    · by_cases hnobody : g.waiters = []
      · exact not_lt.mp fun hbelow => hfree ⟨hnobody, hbelow⟩
      · exact h.full hnobody

/-- A call that moves no slot. -/
theorem Inv.keep {g' : ConcurrencyGate} (h : g.Inv) (hlimit : g'.limit = g.limit)
    (hinFlight : g'.inFlight = g.inFlight) (harrived : g'.arrived = g.arrived)
    (hadmissions : g'.admissions = g.admissions) (htakes : ∀ m, g'.takes m = g.takes m)
    (habsent : ∀ m, g.callers m = .absent → g'.callers m = .absent)
    (hsub : g'.waiters.Sublist g.waiters)
    (hqueued : ∀ m ∈ g'.waiters, g'.futures m ≠ .admitted ∧
      (g'.callers m = .awaiting false ∨ g'.callers m = .awaiting true))
    (hwaits : ∀ m, g'.waits m = true → g.waits m = true ∧ (m ∈ g.waiters → m ∈ g'.waiters)) :
    g'.Inv where
  count := by rw [hinFlight, h.count, harrived, funext htakes]
  absent n hn := habsent n (h.absent n (harrived ▸ hn))
  queued n hmem := ⟨harrived ▸ (h.queued n (hsub.subset hmem)).1, hqueued n hmem⟩
  waiting n hn := (hwaits n hn).2 (h.waiting n (hwaits n hn).1)
  order := by
    rw [hadmissions]
    exact h.order.sublist (hsub.append_left _)
  below admission hmem := by
    rw [harrived]
    exact h.below admission (hadmissions ▸ hmem)
  logged n hn := by
    rw [hadmissions]
    exact h.logged n ((htakes n).symm.trans hn)
  full hne := by
    rw [hlimit, hinFlight]
    refine h.full ?_
    rintro hnobody
    rw [hnobody, List.sublist_nil] at hsub
    exact hne hsub

theorem awaiting_of {n : ℕ} {mustCancel : Bool} (h : g.callers n = .awaiting mustCancel) :
    g.callers n = .awaiting false ∨ g.callers n = .awaiting true := by
  cases mustCancel with
  | false => exact .inl h
  | true => exact .inr h

/-- A waiter is cancelled before it is admitted, or after. -/
theorem Inv.cancel {n : ℕ} {g' : ConcurrencyGate} (h : g.Inv) (hstep : g.cancel n = some g') :
    g'.Inv := by
  unfold ConcurrencyGate.cancel at hstep
  split at hstep
  · next mustCancel hcaller =>
    obtain rfl := Option.some.inj hstep
    have hawaits := awaiting_of hcaller
    split_ifs with hpending
    · have hfuture : ∀ {m}, m ≠ n → Function.update g.futures n .cancelled m = g.futures m :=
        fun hm => Function.update_of_ne hm _ _
      refine h.keep rfl rfl rfl rfl (fun m => ?_) (fun _ hm => hm) (.refl _) (fun m hmem => ?_)
        fun m hwaits => ⟨?_, id⟩
      · by_cases hm : m = n
        · subst hm
          simp [takes, holds, granted, hcaller, hpending]
        · simp only [takes, holds, granted, hfuture hm]
      · obtain ⟨-, hnot, hcaller'⟩ := h.queued m hmem
        refine ⟨?_, hcaller'⟩
        show Function.update g.futures n .cancelled m ≠ _
        by_cases hm : m = n
        · subst hm
          simp
        · rwa [hfuture hm]
      · have hm : m ≠ n := by
          rintro rfl
          simp [waits] at hwaits
        simpa only [waits, hfuture hm] using hwaits
    · refine h.keep rfl rfl rfl rfl (fun m => ?_) (fun m habsent => ?_) (.refl _)
        (fun m hmem => ?_) fun m hwaits => ⟨?_, id⟩
      · by_cases hm : m = n
        · subst hm
          simp [takes, holds, granted, hcaller]
        · exact takes_setCaller_of_ne hm
      · have hm : m ≠ n := by
          rintro rfl
          cases hcaller.symm.trans habsent
        exact (callers_setCaller_of_ne hm).trans habsent
      · obtain ⟨-, hnot, hcaller'⟩ := h.queued m hmem
        refine ⟨hnot, ?_⟩
        by_cases hm : m = n
        · subst hm
          exact .inr callers_setCaller_self
        · rwa [callers_setCaller_of_ne hm]
      · have hm : m ≠ n := by
          rintro rfl
          simp [waits, hpending] at hwaits
        exact (waits_setCaller_of_ne hm).symm.trans hwaits
  · cases hstep

/-- A caller goes on from its `await`. -/
theorem Inv.resume {n : ℕ} {g' : ConcurrencyGate} (h : g.Inv) (hstep : g.resume n = some g') :
    g'.Inv := by
  unfold ConcurrencyGate.resume at hstep
  have hpresent : ∀ {state mustCancel m}, g.callers n = .awaiting mustCancel →
      g.callers m = .absent → (g.setCaller n state).callers m = .absent := by
    intro state mustCancel m hcaller habsent
    have hm : m ≠ n := by
      rintro rfl
      cases hcaller.symm.trans habsent
    exact (callers_setCaller_of_ne hm).trans habsent
  split at hstep
  · cases hstep
  · next mustCancel hcaller hadmitted =>
    have htakes : g.takes n = true := (takes_eq n).mpr (.inr ⟨awaiting_of hcaller, hadmitted⟩)
    split_ifs at hstep
    · obtain rfl := Option.some.inj hstep
      exact h.release htakes
    · obtain rfl := Option.some.inj hstep
      refine h.keep rfl rfl rfl rfl (fun m => ?_) (fun m => hpresent hcaller) (.refl _)
        (fun m hmem => ?_) fun m hwaits => ⟨?_, id⟩
      · by_cases hm : m = n
        · subst hm
          rw [htakes]
          exact (takes_eq _).mpr (.inl callers_setCaller_self)
        · exact takes_setCaller_of_ne hm
      · obtain ⟨-, hnot, hcaller'⟩ := h.queued m hmem
        have hm : m ≠ n := by
          rintro rfl
          exact hnot hadmitted
        have hstays : (g.setCaller n .holding).callers m = g.callers m :=
          callers_setCaller_of_ne hm
        exact ⟨hnot, hcaller'.imp hstays.trans hstays.trans⟩
      · have hm : m ≠ n := by
          rintro rfl
          simp [waits] at hwaits
        exact (waits_setCaller_of_ne hm).symm.trans hwaits
  · next mustCancel hcaller hcancelled =>
    obtain rfl := Option.some.inj hstep
    have hnodup : g.waiters.Nodup :=
      (List.pairwise_append.mp h.order).2.1.imp fun hlt => ne_of_lt hlt
    refine h.keep rfl rfl rfl rfl (fun m => ?_) (fun m => hpresent hcaller) List.erase_sublist
      (fun m hmem => ?_) fun m hwaits => ?_
    · by_cases hm : m = n
      · subst hm
        simp [takes, holds, granted, hcaller, hcancelled]
      · exact takes_setCaller_of_ne hm
    · obtain ⟨hm, hmem⟩ := hnodup.mem_erase_iff.mp hmem
      obtain ⟨-, hnot, hcaller'⟩ := h.queued m hmem
      have hstays : (g.setCaller n .gone).callers m = g.callers m :=
        callers_setCaller_of_ne hm
      exact ⟨hnot, hcaller'.imp hstays.trans hstays.trans⟩
    · have hm : m ≠ n := by
        rintro rfl
        simp [waits] at hwaits
      exact ⟨(waits_setCaller_of_ne hm).symm.trans hwaits,
        fun hmem => hnodup.mem_erase_iff.mpr ⟨hm, hmem⟩⟩
  · cases hstep

theorem Inv.finish {n : ℕ} {g' : ConcurrencyGate} (h : g.Inv) (hstep : g.finish n = some g') :
    g'.Inv := by
  simp only [ConcurrencyGate.finish, Option.ite_none_right_eq_some, Option.some.injEq] at hstep
  obtain ⟨hholds, rfl⟩ := hstep
  exact h.release ((takes_eq n).mpr (.inl hholds))

/-- What every call keeps. -/
theorem Inv.step {g' : ConcurrencyGate} {a : GateLabel} (h : g.Inv) (hstep : g.next a = some g') :
    g'.Inv := by
  cases a with
  | acquire => exact Option.some.inj hstep ▸ h.acquire
  | cancel n => exact h.cancel hstep
  | resume n => exact h.resume hstep
  | finish n => exact h.finish hstep
  | setLimit limit => exact Option.some.inj hstep ▸ h.setLimit limit

theorem Inv.start (limit : ℤ) : (start limit).Inv where
  count := rfl
  absent _ _ := rfl
  queued _ hmem := absurd hmem List.not_mem_nil
  waiting _ hwaits := absurd hwaits (by simp [waits, ConcurrencyGate.start])
  order := .nil
  below _ hmem := absurd hmem List.not_mem_nil
  logged _ htakes := absurd htakes (by simp [takes, holds, granted, ConcurrencyGate.start])
  full hne := absurd rfl hne

/-! ## Every run -/

/-- The slots in flight are those of the holders and of the admitted waiters; slots are given below
the limit alone, in the order of arrival, and nobody waits below the limit. -/
theorem slots_of_reachable {limit : ℤ} (h : (gates limit).Reachable g) :
    g.inFlight = g.holders + g.grants ∧ 0 ≤ g.inFlight ∧
      (∀ admission ∈ g.admissions, admission.inFlight < admission.limit) ∧
      (∀ n, g.takes n = true → n ∈ g.admissions.map Admission.caller) ∧
      (∀ n, g.waits n = true → n ∈ g.waiters ∧ g.limit ≤ g.inFlight ∧
        ∀ admission ∈ g.admissions, admission.caller < n) ∧
      (g.admissions.map Admission.caller).Pairwise (· < ·) := by
  have hinv : g.Inv := by
    refine h.invariant (p := Inv) ?_ fun g a g' => Inv.step
    rintro g rfl
    exact .start limit
  have hcount : g.inFlight = g.holders + g.grants := by
    rw [hinv.count, ← Nat.cast_add]
    refine congrArg Nat.cast (countP_or fun n _ => ?_)
    rintro ⟨hholds, hgranted⟩
    simp only [holds, granted, decide_eq_true_eq] at hholds hgranted
    rw [hholds] at hgranted
    obtain ⟨hcaller | hcaller, -⟩ := hgranted <;> cases hcaller
  obtain ⟨hsorted, -, hbefore⟩ := List.pairwise_append.mp hinv.order
  refine ⟨hcount, ?_, fun admission hmem => (hinv.below admission hmem).1, hinv.logged,
    fun n hwaits => ?_, hsorted⟩
  · omega
  · have hmem := hinv.waiting n hwaits
    refine ⟨hmem, hinv.full (List.ne_nil_of_mem hmem), fun admission hadmission => ?_⟩
    exact hbefore _ (List.mem_map_of_mem hadmission) n hmem

/-- Four callers arrive at a ceiling of one turn; the second is cancelled, the first ends, and the
third is cancelled once it has been admitted. -/
def cancelledTurns : List GateLabel :=
  List.replicate 4 .acquire ++ [.cancel 1, .finish 0, .cancel 2]

theorem slots_cancelledTurns : ∃ g, (gates 1).Reachable g ∧ g.waits 3 = true ∧
    g.admissions.map Admission.caller = [0, 2] ∧ g.inFlight = g.holders + g.grants ∧
    g.limit ≤ g.inFlight ∧ ∀ admission ∈ g.admissions, admission.caller < 3 := by
  obtain ⟨g, hg, hp⟩ := System.Reachable.of_foldlM (S := gates 1) (f := next) (s := start 1)
    (p := fun g => g.waits 3 && g.admissions.map Admission.caller == [0, 2])
    (l := cancelledTurns) (fun _ _ _ h => h) rfl (by decide +kernel)
  simp only [Bool.and_eq_true, beq_iff_eq] at hp
  obtain ⟨hcount, -, -, -, hwaits, -⟩ := slots_of_reachable hg
  obtain ⟨-, hfull, hbefore⟩ := hwaits 3 hp.1
  exact ⟨g, hg, hp.1, hp.2, hcount, hfull, hbefore⟩

end ConcurrencyGate

end TaiSkeleton.Conversations
