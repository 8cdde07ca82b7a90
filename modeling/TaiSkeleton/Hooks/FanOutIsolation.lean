import Mathlib
import TaiSkeleton.Hooks.FanOut

/-!
# The isolation of siblings

A task makes the call of its own hook and comes to the result of its own hook, whatever its siblings
do. The conditions are checked before there are tasks: the first that fails is raised out of the
event, and then none of the hooks runs.
-/

namespace TaiSkeleton.Hooks.FanOut

open Lib

variable {ν ι : Type} (A : Answers ν ι) (event : Event ν)

/-! ## A task -/

/-- The call that a task has made. -/
def Task.logged (task : Task ν ι) : Option (Call ν ι) :=
  match task.phase with
  | .calling _ | .done _ => ownCall A event task.hook
  | _ => none

/-- What a task carries is its own hook's. -/
def Task.Ok (task : Task ν ι) : Prop :=
  match task.phase with
  | .queued | .entered => True
  | .rendering => task.hook.executionKey ≠ ""
  | .evaluating rendered =>
    task.hook.executionKey ≠ "" ∧ renderedExpr A task.hook = .ok rendered
  | .binding input => ownInput A event task.hook = .ok input
  | .bound input => ownInput A event task.hook = .ok input ∧
      ∃ identity, ownIdentity A task.hook = .ok identity ∧ task.identity = some identity
  | .calling input => ownInput A event task.hook = .ok input ∧
      ∃ identity, ownIdentity A task.hook = .ok identity
  | .done result => result = ownResult A event task.hook

variable {A event} {hook : Hook ν} {task task' : Task ν ι} {call : Option (Call ν ι)}

theorem ownInput_of_unbound (h : hook.executionKey = "") :
    ownInput A event hook = .error (unbound hook) := by
  simp [ownInput, h, ensure]

theorem ownInput_of_bound (h : hook.executionKey ≠ "") :
    ownInput A event hook = (renderedExpr A hook >>= fun rendered =>
      eventInput A event hook rendered >>= toolInput event hook) := by
  simp [ownInput, h, ensure]

theorem ownCall_of_error {e : Failure} (h : ownInput A event hook = .error e) :
    ownCall A event hook = none ∧ ownResult A event hook = .error e := by
  simp [ownCall, ownResult, h]

/-- A step of a task keeps to its own hook. -/
theorem Task.Ok.advance (hok : task.Ok A event) (h : task.advance A event = some (task', call)) :
    task'.hook = task.hook ∧ task'.Ok A event ∧
      (task'.logged A event).toList = (task.logged A event).toList ++ call.toList := by
  obtain ⟨hook, phase, identity⟩ := task
  cases phase with
  | queued => simp [Task.advance] at h
  | done result => simp [Task.advance] at h
  | entered =>
    simp only [Task.advance] at h
    split_ifs at h with hkey
    · obtain ⟨rfl, rfl⟩ := Prod.mk.inj (Option.some.inj h)
      have hown : ownInput A event hook = .error (unbound hook) := ownInput_of_unbound hkey
      obtain ⟨hcall, hresult⟩ := ownCall_of_error hown
      simp [Task.Ok, Task.logged, hcall, hresult]
    · obtain ⟨rfl, rfl⟩ := Prod.mk.inj (Option.some.inj h)
      exact ⟨rfl, hkey, rfl⟩
  | rendering =>
    have hown : ownInput A event hook = _ := ownInput_of_bound hok
    simp only [Task.advance] at h
    split at h
    next e he =>
      obtain ⟨rfl, rfl⟩ := Prod.mk.inj (Option.some.inj h)
      rw [he] at hown
      obtain ⟨hcall, hresult⟩ := ownCall_of_error hown
      simp [Task.Ok, Task.logged, hcall, hresult]
    next rendered hr =>
      obtain ⟨rfl, rfl⟩ := Prod.mk.inj (Option.some.inj h)
      exact ⟨rfl, ⟨hok, hr⟩, rfl⟩
  | evaluating rendered =>
    obtain ⟨hkey, hr⟩ := hok
    have hown : ownInput A event hook = _ := ownInput_of_bound hkey
    rw [hr] at hown
    simp only [Task.advance] at h
    split at h
    next e he =>
      obtain ⟨rfl, rfl⟩ := Prod.mk.inj (Option.some.inj h)
      obtain ⟨hcall, hresult⟩ := ownCall_of_error (hown.trans he)
      simp [Task.Ok, Task.logged, hcall, hresult]
    next input hi =>
      obtain ⟨rfl, rfl⟩ := Prod.mk.inj (Option.some.inj h)
      exact ⟨rfl, hown.trans hi, rfl⟩
  | binding input =>
    have hown : ownInput A event hook = .ok input := hok
    simp only [Task.advance] at h
    split at h
    next e he =>
      obtain ⟨rfl, rfl⟩ := Prod.mk.inj (Option.some.inj h)
      simp [Task.Ok, Task.logged, ownCall, ownResult, hown, he]
    next identity hi =>
      obtain ⟨rfl, rfl⟩ := Prod.mk.inj (Option.some.inj h)
      exact ⟨rfl, ⟨hown, identity, hi, rfl⟩, rfl⟩
  | bound input =>
    obtain ⟨hown, identity', hi, hid⟩ := hok
    obtain rfl : identity = some identity' := hid
    obtain ⟨rfl, rfl⟩ := Prod.mk.inj (Option.some.inj h)
    refine ⟨rfl, ⟨hown, identity', hi⟩, ?_⟩
    simp [Task.logged, ownCall, hown, hi]
  | calling input =>
    obtain ⟨hown, identity', hi⟩ := hok
    obtain ⟨rfl, rfl⟩ := Prod.mk.inj (Option.some.inj h)
    refine ⟨rfl, ?_, ?_⟩
    · simp [Task.Ok, ownResult, hown, hi]
    · simp [Task.logged]

/-- A call has the input and the identity of its own hook. -/
theorem ownCall_eq_some {call : Call ν ι} (h : ownCall A event hook = some call) :
    call.hook = hook ∧ ∃ rendered input identity,
      renderedExpr A hook = .ok rendered ∧ eventInput A event hook rendered = .ok (.obj input) ∧
      (∀ key, call.input.lookup key = ((hook.toolKwargs.getD []).lookup key).or
        (((event.toolKwargsOverride.getD []).lookup key).or (input.lookup key))) ∧
      ownIdentity A hook = .ok identity ∧ call.identity = some identity := by
  simp only [ownCall] at h
  split at h
  next input identity hown hid =>
    obtain rfl := Option.some.inj h
    have hkey : hook.executionKey ≠ "" := by
      intro hkey
      rw [ownInput_of_unbound hkey] at hown
      cases hown
    rw [ownInput_of_bound hkey] at hown
    obtain ⟨rendered, hr, hrest⟩ := bind_eq_ok.mp hown
    obtain ⟨value, hv, hmerge⟩ := bind_eq_ok.mp hrest
    cases value with
    | obj members =>
      obtain rfl := Except.ok.inj hmerge
      refine ⟨rfl, rendered, members, identity, hr, hv, ?_, hid, rfl⟩
      intro key
      rw [lookup_updated, lookup_updated]
    | _ => cases hmerge
  next => cases h

/-! ## The steps of an event -/

/-- A step of the event itself. -/
def Act.own : Act → Bool
  | .take | .give => false
  | _ => true

/-- A hook whose own condition is true. -/
def isValid [Zero ν] [DecidableEq ν] (A : Answers ν ι) (event : Event ν) (hook : Hook ν) : Bool :=
  match checkCondition A event hook with
  | .ok answer => answer
  | .error _ => false

section

variable [Zero ν] [DecidableEq ν] {s s' : State ν ι} {a : Act} {limit : ℕ}

variable (A event s a) in
/-- What a step does. -/
inductive Moves : State ν ι → Prop where
  | start {valid : List (Hook ν)} (hstage : s.stage = .checking valid []) :
      Moves { s with stage := .running, tasks := valid.map fun hook => { hook } }
  | fails {valid rest : List (Hook ν)} {hook : Hook ν} {e : Failure}
      (hstage : s.stage = .checking valid (hook :: rest))
      (hcheck : checkCondition A event hook = .error e) : Moves { s with stage := .raised e }
  | checks {valid rest : List (Hook ν)} {hook : Hook ν} {answer : Bool}
      (hstage : s.stage = .checking valid (hook :: rest))
      (hcheck : checkCondition A event hook = .ok answer) :
      Moves { s with stage := .checking (valid ++ if answer then [hook] else []) rest }
  | enters {before after : List (Task ν ι)} {task : Task ν ι} {free : ℕ}
      (hstage : s.stage = .running) (htasks : s.tasks = before ++ task :: after)
      (hphase : task.phase = .queued) (hfree : s.free = free + 1) :
      Moves { s with tasks := before ++ { task with phase := .entered } :: after, free }
  | advances {before after : List (Task ν ι)} {task task' : Task ν ι} {call : Option (Call ν ι)}
      (hstage : s.stage = .running) (htasks : s.tasks = before ++ task :: after)
      (hadvance : task.advance A event = some (task', call)) :
      Moves { s with
        tasks := before ++ task' :: after
        calls := s.calls ++ call.toList
        free := if task'.phase.isDone then s.free + 1 else s.free }
  | ends (hstage : s.stage = .running) (hdone : ∀ task ∈ s.tasks, task.phase.isDone = true) :
      Moves { s with stage := .ended }
  | aside {free others : ℕ} (hown : a.own = false) (h : free + others = s.free + s.others) :
      Moves { s with free, others }

/-- The place of an element of a list. -/
theorem split_at {α : Type} {l : List α} {n : ℕ} {x : α} (h : l[n]? = some x) :
    ∃ before after, l = before ++ x :: after ∧ ∀ y, l.set n y = before ++ y :: after := by
  obtain ⟨hn, rfl⟩ := List.getElem?_eq_some_iff.mp h
  refine ⟨l.take n, l.drop (n + 1), ?_, ?_⟩
  · exact (List.take_append_drop n l).symm.trans (by rw [List.drop_eq_getElem_cons hn])
  · intro y
    rw [List.set_eq_take_append_cons_drop, if_pos hn]

theorem Moves.of_step (h : s.step A event a = some s') : Moves A event s a s' := by
  cases a with
  | check =>
    simp only [State.step] at h
    split at h
    next valid hstage =>
      obtain rfl := Option.some.inj h
      exact .start hstage
    next valid hook rest hstage =>
      split at h
      next e he =>
        obtain rfl := Option.some.inj h
        exact .fails hstage he
      next htrue =>
        obtain rfl := Option.some.inj h
        exact .checks hstage htrue
      next hfalse =>
        obtain rfl := Option.some.inj h
        simpa using Moves.checks (s := s) (a := .check) hstage hfalse
    next => cases h
  | enter n =>
    simp only [State.step] at h
    split at h
    next task free hstage htask hfree =>
      split at h
      next hphase =>
        obtain rfl := Option.some.inj h
        obtain ⟨before, after, hsplit, hset⟩ := split_at htask
        rw [hset]
        exact .enters hstage hsplit hphase hfree
      next => cases h
    next => cases h
  | advance n =>
    simp only [State.step] at h
    split at h
    next task hstage htask =>
      obtain ⟨⟨task', call⟩, hadvance, rfl⟩ := Option.map_eq_some_iff.mp h
      obtain ⟨before, after, hsplit, hset⟩ := split_at htask
      simp only [hset]
      exact .advances hstage hsplit hadvance
    next => cases h
  | finish =>
    simp only [State.step] at h
    split at h
    next hstage =>
      split_ifs at h with hdone
      obtain rfl := Option.some.inj h
      exact .ends hstage (List.all_eq_true.mp hdone)
    next => cases h
  | take =>
    simp only [State.step] at h
    split at h
    next free hfree =>
      obtain rfl := Option.some.inj h
      exact .aside rfl (by omega)
    next => cases h
  | give =>
    simp only [State.step] at h
    split at h
    next others hothers =>
      obtain rfl := Option.some.inj h
      exact .aside rfl (by omega)
    next => cases h

/-! ## What every run keeps -/

variable (A event) in
/-- The tasks are of the hooks whose conditions are true, and the calls are those of the tasks. -/
structure Fanned (tasks : List (Task ν ι)) (calls : List (Call ν ι)) : Prop where
  answered : ∀ hook ∈ event.hooks, ∃ answer, checkCondition A event hook = .ok answer
  hooks : tasks.map (·.hook) = event.hooks.filter (isValid A event)
  ok : ∀ task ∈ tasks, task.Ok A event
  calls : calls.Perm (tasks.filterMap (·.logged A event))

variable (A event) in
/-- Where the event stands. -/
def Stands (s : State ν ι) : Prop :=
  match s.stage with
  | .checking valid rest => s.tasks = [] ∧ s.calls = [] ∧
      ∃ passed, event.hooks = passed ++ rest ∧ valid = passed.filter (isValid A event) ∧
        ∀ hook ∈ passed, ∃ answer, checkCondition A event hook = .ok answer
  | .running => Fanned A event s.tasks s.calls
  | .ended => Fanned A event s.tasks s.calls ∧ ∀ task ∈ s.tasks, task.phase.isDone = true
  | .raised e => s.tasks = [] ∧ s.calls = [] ∧
      ∃ passed hook rest, event.hooks = passed ++ hook :: rest ∧
        (∀ other ∈ passed, ∃ answer, checkCondition A event other = .ok answer) ∧
        checkCondition A event hook = .error e

theorem Stands.fanned (h : Stands A event s) (hstage : s.stage = .running) :
    Fanned A event s.tasks s.calls := by
  simpa only [Stands, hstage] using h

/-- A task takes the place of a task. -/
theorem Fanned.replace {before after : List (Task ν ι)} {calls : List (Call ν ι)}
    (h : Fanned A event (before ++ task :: after) calls) (hhook : task'.hook = task.hook)
    (hok : task'.Ok A event)
    (hlogged : (task'.logged A event).toList = (task.logged A event).toList ++ call.toList) :
    Fanned A event (before ++ task' :: after) (calls ++ call.toList) := by
  refine ⟨h.answered, ?_, ?_, ?_⟩
  · rw [← h.hooks]
    simp [hhook]
  · intro other hmem
    rw [List.mem_append, List.mem_cons] at hmem
    rcases hmem with hbefore | rfl | hafter
    · exact h.ok _ (List.mem_append_left _ hbefore)
    · exact hok
    · exact h.ok _ (List.mem_append_right _ (List.mem_cons_of_mem _ hafter))
  · have hcons : ∀ (t : Task ν ι) (l : List (Task ν ι)),
        (t :: l).filterMap (·.logged A event) =
          (t.logged A event).toList ++ l.filterMap (·.logged A event) := by
      intro t l
      rw [List.filterMap_cons]
      cases t.logged A event <;> rfl
    have hcalls := h.calls
    rw [List.filterMap_append, hcons] at hcalls
    rw [List.filterMap_append, hcons, hlogged]
    -- The call goes to the end of the log, and to its task's place among the tasks.
    refine (hcalls.append_right _).trans ?_
    simp only [List.append_assoc]
    exact (List.perm_append_comm.append_left _).append_left _

theorem Stands.step (h : Stands A event s) (hstep : s.step A event a = some s') :
    Stands A event s' := by
  cases Moves.of_step hstep with
  | @start valid hstage =>
    simp only [Stands, hstage] at h
    obtain ⟨htasks, hcalls, passed, hhooks, rfl, hanswered⟩ := h
    rw [List.append_nil] at hhooks
    refine ⟨hhooks ▸ hanswered, ?_, ?_, ?_⟩
    · simp [hhooks, Function.comp_def]
    · intro task hmem
      obtain ⟨hook, -, rfl⟩ := List.mem_map.mp hmem
      trivial
    · have hnone : (passed.filter (isValid A event)).filterMap
          ((·.logged A event) ∘ fun hook => ({ hook } : Task ν ι)) = [] := by
        rw [List.filterMap_eq_nil_iff]
        intro hook _
        rfl
      simp only [hcalls, List.filterMap_map, hnone, List.Perm.refl]
  | @fails valid rest hook e hstage hcheck =>
    simp only [Stands, hstage] at h
    obtain ⟨htasks, hcalls, passed, hhooks, -, hanswered⟩ := h
    exact ⟨htasks, hcalls, passed, hook, rest, hhooks, hanswered, hcheck⟩
  | @checks valid rest hook answer hstage hcheck =>
    simp only [Stands, hstage] at h
    obtain ⟨htasks, hcalls, passed, hhooks, rfl, hanswered⟩ := h
    have hvalid : isValid A event hook = answer := by simp [isValid, hcheck]
    refine ⟨htasks, hcalls, passed ++ [hook], by simp [hhooks], ?_, ?_⟩
    · simp [List.filter_append, List.filter_cons, hvalid]
    · intro other hmem
      rcases List.mem_append.mp hmem with hmem | hmem
      · exact hanswered other hmem
      · obtain rfl := List.mem_singleton.mp hmem
        exact ⟨answer, hcheck⟩
  | @enters before after task free hstage htasks hphase hfree =>
    have hfanned := h.fanned hstage
    rw [htasks] at hfanned
    have hlogged : (Task.logged A event { task with phase := .entered }).toList =
        (task.logged A event).toList ++ (none : Option (Call ν ι)).toList := by
      simp [Task.logged, hphase]
    have hhook : ({ task with phase := .entered } : Task ν ι).hook = task.hook := rfl
    have hnext := hfanned.replace hhook trivial hlogged
    rw [Option.toList_none, List.append_nil] at hnext
    simpa only [Stands, hstage] using hnext
  | @advances before after task task' call hstage htasks hadvance =>
    have hfanned := h.fanned hstage
    rw [htasks] at hfanned
    have hok := hfanned.ok task (List.mem_append_right _ (List.mem_cons_self ..))
    obtain ⟨hhook, hok', hlogged⟩ := hok.advance hadvance
    simpa only [Stands, hstage] using hfanned.replace hhook hok' hlogged
  | ends hstage hdone => exact ⟨h.fanned hstage, hdone⟩
  | aside => exact h

/-- The permits are free, with other events, or with the tasks. -/
def Bounded (limit : ℕ) (s : State ν ι) : Prop :=
  s.free + s.others + s.tasks.countP (·.phase.holds) = limit

omit [Zero ν] [DecidableEq ν] in
/-- A step of a task gives its permit back just when it is the last. -/
theorem Task.holds_advance (h : task.advance A event = some (task', call)) :
    task.phase.holds = true ∧ task'.phase.holds = !task'.phase.isDone := by
  obtain ⟨hook, phase, identity⟩ := task
  cases phase with
  | queued => simp [Task.advance] at h
  | done result => simp [Task.advance] at h
  | bound input | calling input =>
    obtain ⟨rfl, rfl⟩ := Prod.mk.inj (Option.some.inj h)
    exact ⟨rfl, rfl⟩
  | _ =>
    simp only [Task.advance] at h
    split at h
    all_goals
      obtain ⟨rfl, rfl⟩ := Prod.mk.inj (Option.some.inj h)
      exact ⟨rfl, rfl⟩

theorem Bounded.step (h : Bounded limit s) (hstands : Stands A event s)
    (hstep : s.step A event a = some s') : Bounded limit s' := by
  unfold Bounded at h ⊢
  cases Moves.of_step hstep with
  | @start valid hstage =>
    simp only [Stands, hstage] at hstands
    rw [hstands.1] at h
    rw [← h, List.countP_map]
    have hnone : valid.countP ((fun t : Task ν ι => t.phase.holds) ∘ fun hook => { hook }) = 0 :=
      List.countP_eq_zero.mpr fun _ _ => Bool.false_ne_true
    exact congrArg _ hnone
  | fails | checks | ends => exact h
  | @enters before after task free hstage htasks hphase hfree =>
    rw [htasks, hfree, List.countP_append, List.countP_cons, hphase] at h
    rw [List.countP_append, List.countP_cons]
    simp only [Phase.holds] at h ⊢
    grind
  | @advances before after task task' call hstage htasks hadvance =>
    obtain ⟨hholds, hholds'⟩ := Task.holds_advance hadvance
    rw [htasks, List.countP_append, List.countP_cons, hholds] at h
    rw [List.countP_append, List.countP_cons, hholds']
    grind
  | aside _ hothers => grind

theorem reachable_stands (h : (fanOut A event limit).Reachable s) :
    Stands A event s ∧ Bounded limit s := by
  refine h.invariant (p := fun s => Stands A event s ∧ Bounded limit s) ?_ ?_
  · rintro s ⟨hstage, htasks, hcalls, hlimit⟩
    constructor
    · simp only [Stands, hstage]
      exact ⟨htasks, hcalls, [], rfl, rfl, by simp⟩
    · simpa [Bounded, htasks] using hlimit
  · intro s a s' ⟨hstands, hbounded⟩ hstep
    exact ⟨hstands.step hstep, hbounded.step hstands hstep⟩

/-! ## How far an event is from its end -/

def Phase.left : Phase ν → ℕ
  | queued => 7
  | entered => 6
  | rendering => 5
  | evaluating _ => 4
  | binding _ => 3
  | bound _ => 2
  | calling _ => 1
  | done _ => 0

def State.left (s : State ν ι) : ℕ :=
  match s.stage with
  | .checking valid rest => 2 + 9 * rest.length + 8 * valid.length
  | .running => 1 + (s.tasks.map (·.phase.left)).sum
  | .ended | .raised _ => 0

/-- The event is over. -/
def Stage.isOver : Stage ν → Bool
  | .checking .. | .running => false
  | .ended | .raised _ => true

omit [Zero ν] [DecidableEq ν] in
theorem Task.left_advance (h : task.advance A event = some (task', call)) :
    task'.phase.left < task.phase.left := by
  obtain ⟨hook, phase, identity⟩ := task
  cases phase with
  | queued => simp [Task.advance] at h
  | done result => simp [Task.advance] at h
  | bound input | calling input =>
    obtain ⟨rfl, rfl⟩ := Prod.mk.inj (Option.some.inj h)
    simp [Phase.left]
  | _ =>
    simp only [Task.advance] at h
    split at h
    all_goals
      obtain ⟨rfl, rfl⟩ := Prod.mk.inj (Option.some.inj h)
      simp [Phase.left]

/-- Every step of the event brings it nearer to its end. -/
theorem left_lt (hown : a.own = true) (hstep : s.step A event a = some s') : s'.left < s.left := by
  cases Moves.of_step hstep with
  | @start valid hstage =>
    have hqueued : ((valid.map fun hook => ({ hook } : Task ν ι)).map (·.phase.left)).sum =
        7 * valid.length := by
      simp [Function.comp_def, Phase.left, mul_comm]
    simp only [State.left, hstage, hqueued, List.length_nil]
    omega
  | fails hstage =>
    simp only [State.left, hstage]
    omega
  | @checks valid rest hook answer hstage =>
    have hlength : (if answer then [hook] else []).length ≤ 1 := by cases answer <;> simp
    simp only [State.left, hstage, List.length_append, List.length_cons]
    omega
  | @enters before after task free hstage htasks hphase hfree =>
    simp [State.left, hstage, htasks, hphase, Phase.left]
  | @advances before after task task' call hstage htasks hadvance =>
    have hleft := Task.left_advance hadvance
    simp only [State.left, hstage, htasks, List.map_append, List.map_cons, List.sum_append,
      List.sum_cons]
    omega
  | ends hstage =>
    simp only [State.left, hstage]
    omega
  | aside hothers => simp [hothers] at hown

omit [Zero ν] [DecidableEq ν] in
theorem Task.exists_advance (h : task.phase.holds = true) :
    ∃ next, task.advance A event = some next := by
  obtain ⟨hook, phase, identity⟩ := task
  cases phase with
  | queued => cases h
  | done result => cases h
  | bound input | calling input => exact ⟨_, rfl⟩
  | _ =>
    simp only [Task.advance]
    split
    all_goals exact ⟨_, rfl⟩

/-- An event that is not over can go on, where the other events leave it a permit. -/
theorem exists_own_step (hbounded : Bounded limit s) (hstage : s.stage.isOver = false)
    (hothers : s.others < limit) : ∃ a s', a.own = true ∧ s.step A event a = some s' := by
  obtain ⟨stage, tasks, calls, free, others⟩ := s
  cases stage with
  | ended => cases hstage
  | raised e => cases hstage
  | checking valid rest =>
    refine ⟨.check, ?_⟩
    cases rest with
    | nil => exact ⟨_, rfl, rfl⟩
    | cons hook rest =>
      simp only [State.step]
      rcases checkCondition A event hook with e | (_ | _)
      · exact ⟨_, rfl, rfl⟩
      · exact ⟨_, rfl, rfl⟩
      · exact ⟨_, rfl, rfl⟩
  | running =>
    by_cases hholds : ∃ task ∈ tasks, task.phase.holds = true
    · obtain ⟨task, hmem, htask⟩ := hholds
      obtain ⟨n, hn⟩ := List.mem_iff_getElem?.mp hmem
      obtain ⟨next, hnext⟩ : ∃ next, task.advance A event = some next := Task.exists_advance htask
      exact ⟨.advance n, _, rfl, by simp [State.step, hn, hnext]; rfl⟩
    by_cases hdone : tasks.all fun task => task.phase.isDone
    · exact ⟨.finish, _, rfl, by simp [State.step, hdone]; rfl⟩
    -- Nobody holds a permit, so one is free for the first task in the queue.
    · have hnone : tasks.countP (·.phase.holds) = 0 :=
        List.countP_eq_zero.mpr fun task hmem h => hholds ⟨task, hmem, h⟩
      obtain ⟨task, hmem, htask⟩ : ∃ task ∈ tasks, task.phase.isDone = false := by
        simpa using hdone
      obtain ⟨n, hn⟩ := List.mem_iff_getElem?.mp hmem
      have hqueued : task.phase = .queued := by
        have hfree : ¬ task.phase.holds = true := fun h => hholds ⟨task, hmem, h⟩
        revert htask hfree
        cases task.phase <;> simp [Phase.holds, Phase.isDone]
      obtain ⟨free, rfl⟩ : ∃ rest, free = rest + 1 := by
        simp only [Bounded, hnone] at hbounded hothers
        exact Nat.exists_eq_succ_of_ne_zero (by omega)
      exact ⟨.enter n, _, rfl, by simp [State.step, hn, hqueued]; rfl⟩

/-! ## Isolation -/

variable (A event limit) in
/-- When the event is over, every hook whose own condition is true has run once, to its own result,
and nothing else has been called. -/
def FiresOnce : Prop :=
  ∀ s, (fanOut A event limit).Reachable s → s.stage.isOver = true →
    (s.tasks.map fun task => (task.hook, task.phase)) =
      ((event.hooks.filter (isValid A event)).map fun hook =>
        (hook, .done (ownResult A event hook))) ∧
    s.calls.Perm ((event.hooks.filter (isValid A event)).filterMap (ownCall A event))

variable (A event limit) in
/-- A call has the input and the identity of its own hook. -/
def CallsOwn : Prop :=
  ∀ s, (fanOut A event limit).Reachable s → ∀ call ∈ s.calls,
    ∃ hook ∈ event.hooks, call.hook = hook ∧ isValid A event hook = true ∧
      ∃ rendered input identity,
        renderedExpr A hook = .ok rendered ∧
        eventInput A event hook rendered = .ok (.obj input) ∧
        (∀ key, call.input.lookup key = ((hook.toolKwargs.getD []).lookup key).or
          (((event.toolKwargsOverride.getD []).lookup key).or (input.lookup key))) ∧
        ownIdentity A hook = .ok identity ∧ call.identity = some identity

variable (A event limit) in
/-- The event comes to an end, where the other events leave it a permit. -/
def Ends : Prop :=
  (∀ s, (fanOut A event limit).Reachable s → s.stage.isOver = false → s.others < limit →
    ∃ a s', a.own = true ∧ s.step A event a = some s') ∧
  ∀ (s : State ν ι) (a : Act) (s' : State ν ι),
    a.own = true → s.step A event a = some s' → s'.left < s.left

/-- The tasks of an event that is over are of the hooks whose conditions are true. -/
theorem Fanned.once (h : Fanned A event s.tasks s.calls)
    (hdone : ∀ task ∈ s.tasks, task.phase.isDone = true) :
    (s.tasks.map fun task => (task.hook, task.phase)) =
      ((event.hooks.filter (isValid A event)).map fun hook =>
        (hook, .done (ownResult A event hook))) ∧
    s.calls.Perm ((event.hooks.filter (isValid A event)).filterMap (ownCall A event)) := by
  have hphase : ∀ task ∈ s.tasks, task.phase = .done (ownResult A event task.hook) := by
    intro task hmem
    have hok := h.ok task hmem
    have htask := hdone task hmem
    unfold Task.Ok at hok
    split at hok
    all_goals simp_all [Phase.isDone]
  constructor
  · rw [← h.hooks, List.map_map]
    refine List.map_congr_left fun task hmem => ?_
    rw [hphase task hmem]
    rfl
  · rw [← h.hooks, List.filterMap_map]
    refine h.calls.trans (List.Perm.of_eq (List.filterMap_congr fun task hmem => ?_))
    simp [Task.logged, hphase task hmem]

/-- A call is of a hook whose condition is true. -/
theorem Stands.own (h : Stands A event s) {call : Call ν ι} (hmem : call ∈ s.calls) :
    ∃ hook ∈ event.hooks, isValid A event hook = true ∧ ownCall A event hook = some call := by
  have hfanned : Fanned A event s.tasks s.calls := by
    unfold Stands at h
    split at h
    · exact absurd hmem (by simp [h.2.1])
    · exact h
    · exact h.1
    · exact absurd hmem (by simp [h.2.1])
  obtain ⟨task, htask, hlogged⟩ := List.mem_filterMap.mp (hfanned.calls.mem_iff.mp hmem)
  have hhook : task.hook ∈ event.hooks.filter (isValid A event) :=
    hfanned.hooks ▸ List.mem_map_of_mem htask
  obtain ⟨hevent, hvalid⟩ := List.mem_filter.mp hhook
  refine ⟨task.hook, hevent, hvalid, ?_⟩
  unfold Task.logged at hlogged
  split at hlogged
  · exact hlogged
  · exact hlogged
  · cases hlogged

/-- The first condition that fails ends the event. -/
theorem exists_raised {rest : List (Hook ν)} (hs : (fanOut A event limit).Reachable s)
    {valid : List (Hook ν)} (hstage : s.stage = .checking valid rest) (htasks : s.tasks = [])
    (hfails : ∃ hook ∈ rest, ∃ e, checkCondition A event hook = .error e) :
    ∃ s' e, (fanOut A event limit).Reachable s' ∧ s'.stage = .raised e ∧ s'.tasks = [] := by
  induction rest generalizing s valid with
  | nil =>
    obtain ⟨hook, hmem, -⟩ := hfails
    cases hmem
  | cons hook rest ih =>
    cases hcheck : checkCondition A event hook with
    | error e =>
      refine ⟨{ s with stage := .raised e }, e, hs.take .check ?_, rfl, htasks⟩
      simp [fanOut, State.step, hstage, hcheck]
    | ok answer =>
      obtain ⟨other, hmem, e, he⟩ := hfails
      have hmem : other ∈ rest := by
        rcases List.mem_cons.mp hmem with rfl | hmem
        · rw [hcheck] at he
          cases he
        · exact hmem
      refine ih (s := { s with stage := .checking (valid ++ if answer then [hook] else []) rest })
        (hs.take .check ?_) rfl htasks ⟨other, hmem, e, he⟩
      cases answer <;> simp [fanOut, State.step, hstage, hcheck]

/-- Where no condition fails, the hooks whose conditions are true run, each by itself. -/
theorem firesOnce_of_answered
    (h : ∀ hook ∈ event.hooks, ∃ answer, checkCondition A event hook = .ok answer)
    (hs : (fanOut A event limit).Reachable s) (hover : s.stage.isOver = true) :
    s.stage = .ended ∧ Fanned A event s.tasks s.calls ∧
      ∀ task ∈ s.tasks, task.phase.isDone = true := by
  have hstands := (reachable_stands hs).1
  unfold Stands at hstands
  split at hstands
  next hstage => simp [hstage, Stage.isOver] at hover
  next hstage => simp [hstage, Stage.isOver] at hover
  next hstage => exact ⟨hstage, hstands⟩
  next e hstage =>
    obtain ⟨-, -, passed, hook, rest, hhooks, -, he⟩ := hstands
    obtain ⟨answer, hcheck⟩ := h hook (by simp [hhooks])
    rw [hcheck] at he
    cases he

/-- The first condition that fails is raised, and no hook runs. -/
theorem Stands.of_fails (h : Stands A event s) {before after : List (Hook ν)} {e : Failure}
    (hhooks : event.hooks = before ++ hook :: after)
    (hbefore : ∀ other ∈ before, ∃ answer, checkCondition A event other = .ok answer)
    (hcheck : checkCondition A event hook = .error e) :
    s.tasks = [] ∧ s.calls = [] ∧ (s.stage.isOver = true → s.stage = .raised e) := by
  have hunanswered : ¬ ∀ other ∈ event.hooks, ∃ answer,
      checkCondition A event other = .ok answer := by
    intro hall
    obtain ⟨answer, hanswer⟩ := hall hook (by simp [hhooks])
    rw [hcheck] at hanswer
    cases hanswer
  unfold Stands at h
  split at h
  next hstage => exact ⟨h.1, h.2.1, by simp [hstage, Stage.isOver]⟩
  next => exact absurd h.answered hunanswered
  next => exact absurd h.1.answered hunanswered
  next e' hstage =>
    obtain ⟨htasks, hcalls, passed, other, rest, hhooks', hpassed, he'⟩ := h
    refine ⟨htasks, hcalls, fun _ => ?_⟩
    rw [hstage]
    -- Of two conditions that fail, neither can have been passed before the other.
    rcases List.append_eq_append_iff.mp (hhooks.symm.trans hhooks') with
      ⟨middle, hm, hm'⟩ | ⟨middle, hm, hm'⟩
    · cases middle with
      | nil =>
        obtain ⟨rfl, -⟩ := List.cons.inj hm'
        rw [hcheck] at he'
        rw [Except.error.inj he']
      | cons first middle =>
        obtain ⟨rfl, -⟩ := List.cons.inj hm'
        obtain ⟨answer, hanswer⟩ := hpassed hook (by simp [hm])
        rw [hcheck] at hanswer
        cases hanswer
    · cases middle with
      | nil =>
        obtain ⟨rfl, -⟩ := List.cons.inj hm'
        rw [hcheck] at he'
        rw [Except.error.inj he']
      | cons first middle =>
        obtain ⟨rfl, -⟩ := List.cons.inj hm'
        obtain ⟨answer, hanswer⟩ := hbefore other (by simp [hm])
        rw [he'] at hanswer
        cases hanswer

/-- The hooks of a topic run in isolation from one another, unless a condition fails: then the first
failure is raised out of the event, and none of them runs. -/
theorem isolated_or_raised (A : Answers ν ι) (event : Event ν) (limit : ℕ) :
    CallsOwn A event limit ∧ Ends A event limit ∧
    ((∀ hook ∈ event.hooks, ∃ answer, checkCondition A event hook = .ok answer) →
      FiresOnce A event limit ∧
        ∀ s, (fanOut A event limit).Reachable s → s.stage.isOver = true → s.stage = .ended) ∧
    ∀ before hook after e, event.hooks = before ++ hook :: after →
      (∀ other ∈ before, ∃ answer, checkCondition A event other = .ok answer) →
      checkCondition A event hook = .error e →
      ∀ s, (fanOut A event limit).Reachable s →
        s.tasks = [] ∧ s.calls = [] ∧ (s.stage.isOver = true → s.stage = .raised e) := by
  refine ⟨?_, ⟨?_, ?_⟩, ?_, ?_⟩
  · intro s hs call hmem
    obtain ⟨hook, hevent, hvalid, hcall⟩ := (reachable_stands hs).1.own hmem
    obtain ⟨hhook, hrest⟩ := ownCall_eq_some hcall
    exact ⟨hook, hevent, hhook, hvalid, hrest⟩
  · intro s hs hover hothers
    exact exists_own_step (reachable_stands hs).2 hover hothers
  · intro s a s' hown hstep
    exact left_lt hown hstep
  · intro hanswered
    refine ⟨fun s hs hover => ?_, fun s hs hover => (firesOnce_of_answered hanswered hs hover).1⟩
    obtain ⟨-, hfanned, hdone⟩ := firesOnce_of_answered hanswered hs hover
    exact hfanned.once hdone
  · intro before hook after e hhooks hbefore hcheck s hs
    exact (reachable_stands hs).1.of_fails hhooks hbefore hcheck

end

/-! ## A silenced topic -/

/-- A storage that renders every content as it is, and a jq that cannot index a number. -/
def plainAnswers : Answers ℕ String where
  render _ content _ _ := .ok (content.getD "")
  runJqFirst _ program _ :=
    if program = ".items[0]" then .error (.raised "Cannot index number with number")
    else .ok (.bool true)
  identity _ key _ := .ok key
  runTool _ _ _ := .ok ()

def orderHook (name : String) (condition : Option String) : Hook ℕ :=
  { name, condition, tool := "notify", executionKey := "key", executionKeyFingerprint := "f" }

/-- An order whose items are a number, for a hook on its first item and one on every order. -/
def orderEvent : Event ℕ where
  hooks := [orderHook "first" (some ".items[0]"), orderHook "every" none]
  payload := [("items", .num 3)]
  toolKwargsOverride := none

/-- The condition of one hook silences the other. -/
theorem first_silences_every :
    ¬ (FiresOnce plainAnswers orderEvent 10 ∧ CallsOwn plainAnswers orderEvent 10 ∧
      Ends plainAnswers orderEvent 10) := by
  rintro ⟨hfires, -, -⟩
  have hfirst : (fanOut plainAnswers orderEvent 10).init
      ⟨.checking [] orderEvent.hooks, [], [], 10, 0⟩ := ⟨rfl, rfl, rfl, rfl⟩
  obtain ⟨s, e, hs, hstage, htasks⟩ := exists_raised (.of_init hfirst) rfl rfl
    ⟨_, List.mem_cons_self .., _, rfl⟩
  have honce := (hfires s hs (by rw [hstage]; rfl)).1
  rw [htasks] at honce
  cases honce

end TaiSkeleton.Hooks.FanOut
