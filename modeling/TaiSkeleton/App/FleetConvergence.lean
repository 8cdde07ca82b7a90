import TaiSkeleton.App.WorkerBus

/-!
# Convergence of the fleet

A worker that is connected, listens and has no frame left serves the newest generation, once each
publisher has sent its broadcast; and what a worker skips as its own echo it has published itself.
-/

namespace TaiSkeleton.WorkerBus

open Lib

namespace Fleet

variable {π ρ : Type}

/-! ## Origins -/

/-- The origins of the processes are their own, and a frame carries that of its sender. -/
structure Origins (s : Fleet π ρ) : Prop where
  minted : ∀ p, (s.processes p).started = true → (s.processes p).origin < s.minted
  distinct : ∀ p q, (s.processes p).started = true → (s.processes q).started = true →
    (s.processes p).origin = (s.processes q).origin → p = q
  frames : ∀ p, ∀ frame ∈ (s.processes p).queue, (s.processes frame.sender).started = true ∧
    frame.origin = (s.processes frame.sender).origin

section

variable [DecidableEq π] [DecidableEq ρ] {s s' : Fleet π ρ} {a : Act π ρ} {process : π}
  {p' : Process π ρ} {frame : Frame π}

@[simp] theorem processes_set_self : (s.set process p').processes process = p' := by
  unfold Fleet.set
  exact Function.update_self process p' s.processes

@[simp] theorem processes_set_of_ne {q : π} (h : q ≠ process) :
    (s.set process p').processes q = s.processes q := by
  unfold Fleet.set
  exact Function.update_of_ne h p' s.processes

/-- A step that keeps the origins and adds no frame. -/
theorem Origins.of_set (h : s.Origins) (hstarted : p'.started = (s.processes process).started)
    (horigin : p'.origin = (s.processes process).origin)
    (hqueue : ∀ frame ∈ p'.queue, frame ∈ (s.processes process).queue) :
    (s.set process p').Origins := by
  have hkept : ∀ q, ((s.set process p').processes q).started = (s.processes q).started ∧
      ((s.set process p').processes q).origin = (s.processes q).origin := by
    intro q
    by_cases hq : q = process
    · subst hq
      rw [processes_set_self]
      exact ⟨hstarted, horigin⟩
    · rw [processes_set_of_ne hq]
      exact ⟨rfl, rfl⟩
  refine ⟨fun q hq => ?_, fun q r hq hr => ?_, fun q frame hframe => ?_⟩
  · rw [(hkept q).1] at hq
    rw [(hkept q).2]
    exact h.minted q hq
  · rw [(hkept q).1] at hq
    rw [(hkept r).1] at hr
    rw [(hkept q).2, (hkept r).2]
    exact h.distinct q r hq hr
  · rw [(hkept frame.sender).1, (hkept frame.sender).2]
    by_cases hq : q = process
    · subst hq
      rw [processes_set_self] at hframe
      exact h.frames q frame (hqueue frame hframe)
    · rw [processes_set_of_ne hq] at hframe
      exact h.frames q frame hframe

/-- A process starts with an origin that nothing has. -/
theorem Origins.of_minted (h : s.Origins) (hidle : (s.processes process).started = false)
    (horigin : p'.origin = s.minted) (hqueue : p'.queue = []) :
    ({ s with minted := s.minted + 1 }.set process p').Origins := by
  have hold : ∀ q, (s.processes q).started = true → q ≠ process := by
    rintro q hq rfl
    exact Bool.false_ne_true (hidle.symm.trans hq)
  refine ⟨fun q hq => ?_, fun q r hq hr heq => ?_, fun q frame hframe => ?_⟩
  · show _ < s.minted + 1
    by_cases hprocess : q = process
    · subst hprocess
      rw [processes_set_self, horigin]
      omega
    · rw [processes_set_of_ne hprocess] at hq ⊢
      have := h.minted q hq
      exact Nat.lt_succ_of_lt this
  · by_cases hq' : q = process
    · by_cases hr' : r = process
      · exact hq'.trans hr'.symm
      · subst hq'
        rw [processes_set_of_ne hr'] at hr heq
        rw [processes_set_self, horigin] at heq
        exact absurd heq.symm (Nat.ne_of_lt (h.minted r hr))
    · by_cases hr' : r = process
      · subst hr'
        rw [processes_set_of_ne hq'] at hq heq
        rw [processes_set_self, horigin] at heq
        exact absurd heq (Nat.ne_of_lt (h.minted q hq))
      · rw [processes_set_of_ne hq'] at hq heq
        rw [processes_set_of_ne hr'] at hr heq
        exact h.distinct q r hq hr heq
  · by_cases hq : q = process
    · subst hq
      rw [processes_set_self, hqueue] at hframe
      cases hframe
    · rw [processes_set_of_ne hq] at hframe
      obtain ⟨hstarted, hsender⟩ := h.frames q frame hframe
      rw [processes_set_of_ne (hold frame.sender hstarted)]
      exact ⟨hstarted, hsender⟩

theorem Origins.deliver (h : s.Origins) (hstarted : (s.processes frame.sender).started = true)
    (horigin : frame.origin = (s.processes frame.sender).origin) :
    (s.deliver frame).Origins := by
  refine ⟨h.minted, h.distinct, fun q other hother => ?_⟩
  have hother : other ∈ if (s.processes q).connected then (s.processes q).queue ++ [frame]
      else (s.processes q).queue := hother
  split_ifs at hother
  · rcases List.mem_append.mp hother with hold | hnew
    · exact h.frames q other hold
    · obtain rfl := List.mem_singleton.mp hnew
      exact ⟨hstarted, horigin⟩
  · exact h.frames q other hother

/-- A step keeps the origins. -/
theorem Origins.next (h : s.Origins)
    (hpublishers : ∀ r process generation, s.publishers r = .reloaded process generation →
      (s.processes process).started = true)
    (hnext : s.next a = some s') : s'.Origins := by
  cases a with
  | boot process =>
    obtain ⟨hidle, hnext⟩ := Option.ite_none_left_eq_some.mp hnext
    obtain rfl := Option.some.inj hnext
    exact h.of_minted ((Bool.not_eq_true _).mp hidle) rfl rfl
  | fork parent child =>
    obtain ⟨hidle, hnext⟩ := Option.ite_none_left_eq_some.mp hnext
    obtain rfl := Option.some.inj hnext
    rw [Bool.or_eq_true, not_or] at hidle
    exact h.of_minted ((Bool.not_eq_true _).mp hidle.1) rfl rfl
  | subscribe process =>
    obtain ⟨-, hnext⟩ := Option.ite_none_right_eq_some.mp hnext
    obtain rfl := Option.some.inj hnext
    exact h.of_set rfl rfl fun frame hframe => absurd hframe List.not_mem_nil
  | drop process =>
    obtain rfl := Option.some.inj hnext
    exact h.of_set rfl rfl fun frame hframe => absurd hframe List.not_mem_nil
  | leave process =>
    obtain ⟨-, hnext⟩ := Option.ite_none_right_eq_some.mp hnext
    obtain rfl := Option.some.inj hnext
    exact h.of_set rfl rfl fun _ => id
  | register process =>
    obtain ⟨-, hnext⟩ := Option.ite_none_right_eq_some.mp hnext
    obtain rfl := Option.some.inj hnext
    exact h.of_set rfl rfl fun _ => id
  | handle process =>
    simp only [Fleet.next] at hnext
    split at hnext
    · next frame queue _ hqueue =>
      have htail : ∀ other ∈ queue, other ∈ (s.processes process).queue := by
        intro other hother
        rw [hqueue]
        exact List.mem_cons_of_mem _ hother
      split_ifs at hnext
      · obtain rfl := Option.some.inj hnext
        exact h.of_set rfl rfl htail
      · obtain rfl := Option.some.inj hnext
        exact h.of_set rfl rfl htail
    · cases hnext
  | acquire process holder =>
    obtain ⟨-, hnext⟩ := Option.ite_none_right_eq_some.mp hnext
    obtain rfl := Option.some.inj hnext
    exact h.of_set rfl rfl fun _ => id
  | read process =>
    simp only [Fleet.next] at hnext
    split at hnext
    · obtain rfl := Option.some.inj hnext
      exact h.of_set rfl rfl fun _ => id
    · cases hnext
  | apply process =>
    simp only [Fleet.next] at hnext
    split at hnext
    · next holder generation _ =>
      obtain rfl := Option.some.inj hnext
      cases holder with
      | subscription => exact h.of_set rfl rfl fun _ => id
      | publisher publisher =>
        have hset : (s.set process { s.processes process with
            served := generation, gate := none }).Origins :=
          h.of_set rfl rfl fun _ => id
        exact ⟨hset.minted, hset.distinct, hset.frames⟩
    · cases hnext
  | persist publisher process =>
    obtain ⟨-, hnext⟩ := Option.ite_none_right_eq_some.mp hnext
    obtain rfl := Option.some.inj hnext
    exact ⟨h.minted, h.distinct, h.frames⟩
  | broadcast publisher =>
    simp only [Fleet.next] at hnext
    split at hnext
    · next process generation hpublisher =>
      obtain rfl := Option.some.inj hnext
      exact Origins.deliver ⟨h.minted, h.distinct, h.frames⟩
        (hpublishers publisher process generation hpublisher) rfl
    · cases hnext
  | publish process op targets =>
    obtain ⟨hstarted, hnext⟩ := Option.ite_none_right_eq_some.mp hnext
    obtain rfl := Option.some.inj hnext
    exact h.deliver hstarted rfl

end

/-! ## Reloads -/

/-- A worker is about to read the newest generation: it has the frame of another process to apply,
or it reloads and has read no older one. -/
def WillReload (s : Fleet π ρ) (process : π) : Prop :=
  (∃ frame ∈ (s.processes process).queue,
    frame.op = .reloadConfig ∧ frame.targets = none ∧ frame.sender ≠ process) ∨
  ((s.processes process).stage = .resyncing ∨ (s.processes process).stage = .applying) ∧
    ∀ generation, (s.processes process).gate = some (.subscription, some generation) →
      generation = s.store

/-- A connected worker serves the newest generation, or it will: its broadcast is still to be sent,
or the worker is about to read it. -/
def Converging (s : Fleet π ρ) (process : π) : Prop :=
  (s.processes process).connected = true →
    (s.processes process).served = s.store ∨
      (∃ publisher, (s.publishers publisher).unsent = some s.store) ∨ s.WillReload process

/-- What holds of a process: what it serves was persisted, and a reload under way has read nothing
older and runs for a task that waits for it. -/
structure ProcessInv [DecidableEq π] (s : Fleet π ρ) (process : π) : Prop where
  started : (s.processes process).connected = true ∨ (s.processes process).subscribes = true →
    (s.processes process).started = true
  served : (s.processes process).served ≤ s.store
  read : ∀ holder generation, (s.processes process).gate = some (holder, some generation) →
    (s.processes process).served ≤ generation ∧ generation ≤ s.store
  wanted : ∀ holder generation, (s.processes process).gate = some (holder, generation) →
    s.wants process holder = true

/-- What holds of a publisher: a reload that runs for it reads its generation or a newer one, and
after it the process serves that. -/
def PublisherInv (s : Fleet π ρ) (publisher : ρ) : Prop :=
  match s.publishers publisher with
  | .idle => True
  | .persisted process generation =>
    (s.processes process).started = true ∧ generation ≤ s.store ∧
      ∀ read, (s.processes process).gate = some (.publisher publisher, some read) →
        generation ≤ read
  | .reloaded process generation =>
    (s.processes process).started = true ∧ generation ≤ (s.processes process).served

structure Inv [DecidableEq π] (s : Fleet π ρ) : Prop where
  process : ∀ process, s.ProcessInv process
  publisher : ∀ publisher, s.PublisherInv publisher
  converging : ∀ process, s.Converging process

section

variable [DecidableEq π] [DecidableEq ρ] {s s' : Fleet π ρ} {a : Act π ρ} {process : π}
  {p' : Process π ρ} {frame : Frame π} {publisher : ρ}

theorem wants_publisher : s.wants process (.publisher publisher) = true ↔
    ∃ generation, s.publishers publisher = .persisted process generation := by
  simp only [wants]
  split
  · next home generation hpublisher =>
    rw [decide_eq_true_iff]
    constructor
    · rintro rfl
      exact ⟨generation, hpublisher⟩
    · rintro ⟨persisted, hpersisted⟩
      rw [hpublisher] at hpersisted
      cases hpersisted
      rfl
  · next hother =>
    refine iff_of_false Bool.false_ne_true ?_
    rintro ⟨generation, hpersisted⟩
    exact hother process generation hpersisted

theorem wants_set_of_ne {q : π} (h : q ≠ process) (holder : Holder ρ) :
    (s.set process p').wants q holder = s.wants q holder := by
  cases holder with
  | subscription =>
    unfold wants
    simp only [processes_set_of_ne h]
  | publisher _ => rfl

/-- A step of one process keeps the invariant where what it serves grows, where what its reload
has read is kept or is the newest, and where the process itself keeps what holds of it. -/
theorem Inv.of_set (h : s.Inv)
    (hgrows : (s.processes process).started = true → p'.started = true ∧
      (s.processes process).served ≤ p'.served)
    (hgate : ∀ publisher read, p'.gate = some (.publisher publisher, some read) →
      (s.processes process).gate = some (.publisher publisher, some read) ∨ read = s.store)
    (hprocess : (s.set process p').ProcessInv process)
    (hconverging : (s.set process p').Converging process) : (s.set process p').Inv := by
  refine ⟨fun q => ?_, fun r => ?_, fun q => ?_⟩
  · by_cases hq : q = process
    · subst hq
      exact hprocess
    · obtain ⟨hstarted, hserved, hread, hwanted⟩ := h.process q
      constructor
      · rw [processes_set_of_ne hq]
        exact hstarted
      · rw [processes_set_of_ne hq]
        exact hserved
      · rw [processes_set_of_ne hq]
        exact hread
      · intro holder generation
        rw [processes_set_of_ne hq, wants_set_of_ne hq]
        exact hwanted holder generation
  · have hold := h.publisher r
    unfold PublisherInv at hold ⊢
    show match s.publishers r with
      | .idle => True
      | .persisted home generation => _
      | .reloaded home generation => _
    split at hold
    · trivial
    · next home generation _ =>
      obtain ⟨hstarted, hle, hread⟩ := hold
      by_cases hhome : home = process
      · subst hhome
        rw [processes_set_self]
        refine ⟨(hgrows hstarted).1, hle, fun read hgate' => ?_⟩
        rcases hgate r read hgate' with hkept | rfl
        · exact hread read hkept
        · exact hle
      · rw [processes_set_of_ne hhome]
        exact ⟨hstarted, hle, hread⟩
    · next home generation _ =>
      obtain ⟨hstarted, hle⟩ := hold
      by_cases hhome : home = process
      · subst hhome
        rw [processes_set_self]
        exact ⟨(hgrows hstarted).1, Nat.le_trans hle (hgrows hstarted).2⟩
      · rw [processes_set_of_ne hhome]
        exact ⟨hstarted, hle⟩
  · by_cases hq : q = process
    · subst hq
      exact hconverging
    · have hold := h.converging q
      unfold Converging WillReload at hold ⊢
      rw [processes_set_of_ne hq]
      exact hold

/-- A reload runs for a subscription only while it resyncs or applies an op. -/
theorem stage_of_gate (h : s.ProcessInv process) {read : Option ℕ}
    (hgate : (s.processes process).gate = some (.subscription, read)) :
    (s.processes process).stage = .resyncing ∨ (s.processes process).stage = .applying :=
  of_decide_eq_true (h.wanted .subscription read hgate)

/-- A process goes on to a stage without reloading. -/
theorem Inv.of_stage (h : s.Inv) (hsame : p'.started = (s.processes process).started ∧
      p'.subscribes = (s.processes process).subscribes ∧
      p'.served = (s.processes process).served ∧ p'.gate = (s.processes process).gate)
    (hconnected : p'.connected = true → (s.processes process).subscribes = true ∨
      (s.processes process).connected = true)
    (hstage : ∀ read, p'.gate = some (.subscription, read) →
      p'.stage = .resyncing ∨ p'.stage = .applying)
    (hconverging : (s.set process p').Converging process) : (s.set process p').Inv := by
  obtain ⟨hstarted, hsubscribes, hserved, hgate⟩ := hsame
  have hold := h.process process
  refine h.of_set (fun hrunning => ⟨hstarted.trans hrunning, Nat.le_of_eq hserved.symm⟩)
    (fun _ _ hread => .inl (hgate ▸ hread)) ⟨?_, ?_, ?_, ?_⟩ hconverging
  · rw [processes_set_self, hstarted]
    rintro (hconnected' | hsubscribes')
    · exact hold.started (hconnected hconnected').symm
    · exact hold.started (.inr (hsubscribes ▸ hsubscribes'))
  · rw [processes_set_self, hserved]
    exact hold.served
  · rw [processes_set_self, hserved, hgate]
    exact hold.read
  · intro holder read hread
    rw [processes_set_self] at hread
    cases holder with
    | subscription =>
      unfold wants
      rw [processes_set_self]
      exact decide_eq_true (hstage read hread)
    | publisher publisher =>
      rw [hgate] at hread
      exact hold.wanted (.publisher publisher) read hread

/-- The gate of a process is taken, or its reload reads the store. -/
theorem Inv.of_gate (h : s.Inv) {holder : Holder ρ} {read : Option ℕ}
    (hwants : s.wants process holder = true) (hread : ∀ generation ∈ read, generation = s.store) :
    (s.set process { s.processes process with gate := some (holder, read) }).Inv := by
  have hold := h.process process
  have hreads : ∀ holder' generation,
      some (holder, read) = some (holder', some generation) → generation = s.store := by
    rintro holder' generation heq
    exact hread generation (congrArg Prod.snd (Option.some.inj heq))
  refine h.of_set (fun hrunning => ⟨hrunning, Nat.le_refl _⟩) ?_ ⟨?_, ?_, ?_, ?_⟩ ?_
  · exact fun publisher generation heq => .inr (hreads _ generation heq)
  · rw [processes_set_self]
    exact hold.started
  · rw [processes_set_self]
    exact hold.served
  · rw [processes_set_self]
    intro holder' generation heq
    rw [hreads holder' generation heq]
    exact ⟨hold.served, Nat.le_refl _⟩
  · intro holder' generation heq
    rw [processes_set_self] at heq
    obtain rfl : holder = holder' := congrArg Prod.fst (Option.some.inj heq)
    cases holder with
    | subscription =>
      unfold wants at hwants ⊢
      rw [processes_set_self]
      exact hwants
    | publisher _ => exact hwants
  · have hconverging := h.converging process
    unfold Converging WillReload at hconverging ⊢
    rw [processes_set_self]
    refine fun hconnected => (hconverging hconnected).imp_right (Or.imp_right ?_)
    refine Or.imp_right fun hstage => ⟨hstage.1, fun generation heq => ?_⟩
    exact hreads _ generation heq

/-- A reload ends, and the process serves what it has read. -/
theorem Inv.of_applied (h : s.Inv) {holder : Holder ρ} {generation : ℕ}
    (hgate : (s.processes process).gate = some (holder, some generation))
    (hsame : p'.started = (s.processes process).started ∧
      p'.subscribes = (s.processes process).subscribes ∧
      p'.connected = (s.processes process).connected ∧ p'.queue = (s.processes process).queue)
    (hserved : p'.served = generation) (hfree : p'.gate = none)
    (hstage : p'.stage = (s.processes process).stage ∨ holder = .subscription) :
    (s.set process p').Inv := by
  obtain ⟨hstarted, hsubscribes, hconnected, hqueue⟩ := hsame
  have hold := h.process process
  obtain ⟨hgrows, hle⟩ := hold.read holder generation hgate
  refine h.of_set (fun hrunning => ⟨hstarted.trans hrunning, hserved ▸ hgrows⟩) ?_
    ⟨?_, ?_, ?_, ?_⟩ ?_
  · intro publisher read hread
    rw [hfree] at hread
    cases hread
  · rw [processes_set_self, hstarted, hsubscribes, hconnected]
    exact hold.started
  · rw [processes_set_self, hserved]
    exact hle
  · intro holder' read hread
    rw [processes_set_self, hfree] at hread
    cases hread
  · intro holder' read hread
    rw [processes_set_self, hfree] at hread
    cases hread
  · have hconverging := h.converging process
    unfold Converging WillReload at hconverging ⊢
    rw [processes_set_self, hserved, hqueue, hconnected, hfree]
    intro hconnected'
    rcases hconverging hconnected' with hnewest | hunsent | hframe | ⟨hreloads, hread⟩
    · exact .inl (Nat.le_antisymm hle (hnewest ▸ hgrows))
    · exact .inr (.inl hunsent)
    · exact .inr (.inr (.inl hframe))
    · rcases hstage with hsame | rfl
      · refine .inr (.inr (.inr ⟨hsame ▸ hreloads, fun read heq => ?_⟩))
        cases heq
      · exact .inl (hread generation hgate)

/-- No reload runs for a publisher that waits for none. -/
theorem Inv.no_gate (h : s.Inv) (publisher : ρ) (hpublisher : ∀ home generation,
      s.publishers publisher ≠ .persisted home generation) (q : π) (read : Option ℕ) :
    (s.processes q).gate ≠ some (.publisher publisher, read) := by
  intro hgate
  obtain ⟨generation, hpersisted⟩ := wants_publisher.mp ((h.process q).wanted _ _ hgate)
  exact hpublisher q generation hpersisted

/-- The task that a reload runs for still waits when another publisher goes on. -/
theorem wants_update (h : s.ProcessInv process) {p : Publisher π} {holder : Holder ρ}
    {read : Option ℕ}
    (hidle : ∀ read, (s.processes process).gate ≠ some (.publisher publisher, read))
    (hgate : (s.processes process).gate = some (holder, read)) :
    ({ s with publishers := Function.update s.publishers publisher p } : Fleet π ρ).wants process
      holder = true := by
  have hwants := h.wanted holder read hgate
  cases holder with
  | subscription => exact hwants
  | publisher r =>
    have hr : r ≠ publisher := by
      rintro rfl
      exact hidle read hgate
    obtain ⟨generation, hpersisted⟩ := wants_publisher.mp hwants
    refine wants_publisher.mpr ⟨generation, ?_⟩
    exact (Function.update_of_ne hr _ _).trans hpersisted

/-- A publisher that no reload runs for goes on. -/
theorem Inv.of_publisher (h : s.Inv) {p : Publisher π}
    (hidle : ∀ process read, (s.processes process).gate ≠ some (.publisher publisher, read))
    (hpublisher : ({ s with publishers := Function.update s.publishers publisher p } :
      Fleet π ρ).PublisherInv publisher)
    (hunsent : ∀ generation, (s.publishers publisher).unsent = some generation →
      p.unsent = some generation) :
    ({ s with publishers := Function.update s.publishers publisher p } : Fleet π ρ).Inv := by
  refine ⟨fun q => ?_, fun r => ?_, fun q => ?_⟩
  · have hold := h.process q
    exact ⟨hold.started, hold.served, hold.read, fun _ _ => wants_update hold (hidle q)⟩
  · by_cases hr : r = publisher
    · subst hr
      exact hpublisher
    · have hold := h.publisher r
      unfold PublisherInv at hold ⊢
      simp only [Function.update_of_ne hr]
      exact hold
  · intro hconnected
    refine (h.converging q hconnected).imp_right (Or.imp_left ?_)
    rintro ⟨r, hr⟩
    by_cases heq : r = publisher
    · subst heq
      refine ⟨r, ?_⟩
      show (Function.update s.publishers r p r).unsent = _
      rw [Function.update_self]
      exact hunsent _ hr
    · refine ⟨r, ?_⟩
      show (Function.update s.publishers publisher p r).unsent = _
      rw [Function.update_of_ne heq]
      exact hr

/-- A publisher's own reload ends. -/
theorem Inv.applied (h : s.Inv) {holder : Holder ρ} {generation : ℕ}
    (hgate : (s.processes process).gate = some (holder, some generation)) :
    (s.applied process holder generation).Inv := by
  cases holder with
  | subscription =>
    exact h.of_applied hgate ⟨rfl, rfl, rfl, rfl⟩ rfl rfl (.inr rfl)
  | publisher publisher =>
    have hset : (s.set process { s.processes process with
        served := generation, gate := none }).Inv :=
      h.of_applied hgate ⟨rfl, rfl, rfl, rfl⟩ rfl rfl (.inl rfl)
    obtain ⟨persisted, hpersisted⟩ := wants_publisher.mp ((h.process process).wanted _ _ hgate)
    have hold := h.publisher publisher
    unfold PublisherInv at hold
    rw [hpersisted] at hold
    obtain ⟨hstarted, -, hread⟩ := hold
    unfold Fleet.applied
    simp only [hpersisted]
    refine hset.of_publisher (p := .reloaded process persisted) ?_ ?_ ?_
    · intro q read hq
      by_cases hhome : q = process
      · subst hhome
        rw [processes_set_self] at hq
        cases hq
      · rw [processes_set_of_ne hhome] at hq
        obtain ⟨other, hother⟩ := wants_publisher.mp ((h.process q).wanted _ _ hq)
        rw [hpersisted] at hother
        cases hother
        exact hhome rfl
    · unfold PublisherInv
      simp only [Function.update_self, processes_set_self]
      exact ⟨hstarted, hread generation hgate⟩
    · intro unsent hunsent
      have hunsent : (s.publishers publisher).unsent = some unsent := hunsent
      rw [hpersisted] at hunsent
      exact hunsent

/-- A frame only adds to what a worker is about to read. -/
theorem WillReload.deliver (h : s.WillReload process) : (s.deliver frame).WillReload process := by
  refine h.imp_left ?_
  rintro ⟨other, hother, hreload⟩
  refine ⟨other, ?_, hreload⟩
  show other ∈ if (s.processes process).connected then (s.processes process).queue ++ [frame]
    else (s.processes process).queue
  split_ifs
  · exact List.mem_append_left _ hother
  · exact hother

theorem Inv.deliver (h : s.Inv) (frame : Frame π) : (s.deliver frame).Inv where
  process p :=
    have hold := h.process p
    ⟨hold.started, hold.served, hold.read, fun holder read hgate => by
      have hwants := hold.wanted holder read hgate
      cases holder with
      | subscription => exact hwants
      | publisher _ => exact hwants⟩
  publisher := h.publisher
  converging p hconnected :=
    (h.converging p hconnected).imp_right (Or.imp_right WillReload.deliver)

theorem Inv.persist (h : s.Inv) (hstarted : (s.processes process).started = true)
    (hidle : s.publishers publisher = .idle) :
    ({ s with
      store := s.store + 1
      publishers := Function.update s.publishers publisher
        (.persisted process (s.store + 1)) } : Fleet π ρ).Inv := by
  have hgate := h.no_gate publisher fun home generation hpersisted => by
    rw [hidle] at hpersisted
    cases hpersisted
  refine ⟨fun q => ?_, fun r => ?_, fun q _ => .inr (.inl ⟨publisher, ?_⟩)⟩
  · have hold := h.process q
    refine ⟨hold.started, Nat.le_succ_of_le hold.served, fun holder read hgate' => ?_,
      fun holder read hgate' => ?_⟩
    · obtain ⟨hgrows, hle⟩ := hold.read holder read hgate'
      exact ⟨hgrows, Nat.le_succ_of_le hle⟩
    · have hwants := wants_update (p := .persisted process (s.store + 1)) hold (hgate q) hgate'
      cases holder with
      | subscription => exact hwants
      | publisher _ => exact hwants
  · unfold PublisherInv
    by_cases hr : r = publisher
    · subst hr
      simp only [Function.update_self]
      exact ⟨hstarted, Nat.le_refl _, fun read hgate' => absurd hgate' (hgate process _)⟩
    · have hold := h.publisher r
      unfold PublisherInv at hold
      simp only [Function.update_of_ne hr]
      split at hold
      · trivial
      · exact ⟨hold.1, Nat.le_succ_of_le hold.2.1, hold.2.2⟩
      · exact hold
  · show (Function.update s.publishers publisher _ publisher).unsent = _
    rw [Function.update_self]
    rfl

/-- The broadcast of the newest generation reaches every connected worker but its own process,
which has reloaded since. -/
theorem Inv.broadcast (h : s.Inv) {generation : ℕ} (hop : frame.op = .reloadConfig)
    (htargets : frame.targets = none)
    (hreloaded : s.publishers publisher = .reloaded frame.sender generation) :
    ({ s with publishers := Function.update s.publishers publisher .idle }.deliver frame).Inv := by
  have hgate := h.no_gate publisher fun home other hpersisted => by
    rw [hreloaded] at hpersisted
    cases hpersisted
  refine ⟨fun q => ?_, fun r => ?_, fun q hconnected => ?_⟩
  · have hold := h.process q
    refine ⟨hold.started, hold.served, hold.read, fun holder read hgate' => ?_⟩
    have hwants := wants_update (p := .idle) hold (hgate q) hgate'
    cases holder with
    | subscription => exact hwants
    | publisher _ => exact hwants
  · unfold PublisherInv
    by_cases hr : r = publisher
    · subst hr
      show match Function.update s.publishers r .idle r with
        | .idle => True
        | .persisted home other => _
        | .reloaded home other => _
      rw [Function.update_self]
      trivial
    · have hold := h.publisher r
      unfold PublisherInv at hold
      show match Function.update s.publishers publisher .idle r with
        | .idle => True
        | .persisted home other => _
        | .reloaded home other => _
      rw [Function.update_of_ne hr]
      exact hold
  · have hlive : (s.processes q).connected = true := hconnected
    rcases h.converging q hlive with hnewest | ⟨r, hunsent⟩ | hreload
    · exact .inl hnewest
    · by_cases hr : r = publisher
      · subst hr
        rw [hreloaded] at hunsent
        obtain rfl := Option.some.inj hunsent
        by_cases hq : q = frame.sender
        · have hold := h.publisher r
          unfold PublisherInv at hold
          rw [hreloaded] at hold
          subst hq
          exact .inl (Nat.le_antisymm (h.process _).served hold.2)
        · refine .inr (.inr (.inl ⟨frame, ?_, hop, htargets, Ne.symm hq⟩))
          show frame ∈ if (s.processes q).connected then (s.processes q).queue ++ [frame]
            else (s.processes q).queue
          rw [if_pos hlive]
          exact List.mem_append_right _ (List.mem_singleton_self frame)
      · refine .inr (.inl ⟨r, ?_⟩)
        show (Function.update s.publishers publisher .idle r).unsent = _
        rw [Function.update_of_ne hr]
        exact hunsent
    · exact .inr (.inr (WillReload.deliver hreload))

/-- A process starts: nothing of it was under way. -/
theorem Inv.of_started (h : s.Inv) (hidle : (s.processes process).started = false)
    (hstarted : p'.started = true) (hserved : p'.served ≤ s.store) (hgate : p'.gate = none)
    (hconnected : p'.connected = false) (minted : ℕ) :
    ({ s with minted }.set process p').Inv := by
  have hold : ({ s with minted } : Fleet π ρ).Inv := ⟨fun q =>
    have hq := h.process q
    ⟨hq.started, hq.served, hq.read, fun holder read hgate => by
      have hwants := hq.wanted holder read hgate
      cases holder with
      | subscription => exact hwants
      | publisher _ => exact hwants⟩, h.publisher, h.converging⟩
  refine hold.of_set (fun hrunning => ?_) (fun _ _ hread => ?_) ⟨?_, ?_, ?_, ?_⟩ ?_
  · exact absurd (hidle.symm.trans hrunning) Bool.false_ne_true
  · rw [hgate] at hread
    cases hread
  · rw [processes_set_self]
    exact fun _ => hstarted
  · rw [processes_set_self]
    exact hserved
  · intro holder read hread
    rw [processes_set_self, hgate] at hread
    cases hread
  · intro holder read hread
    rw [processes_set_self, hgate] at hread
    cases hread
  · intro hlive
    rw [processes_set_self, hconnected] at hlive
    cases hlive

/-- A worker takes the next frame of its queue. -/
theorem Inv.handle (h : s.Inv) (horigins : s.Origins) {queue : List (Frame π)}
    (hstage : (s.processes process).stage = .listening)
    (hqueue : (s.processes process).queue = frame :: queue) (stage : Stage)
    (hnew : stage = if frame.isFor (s.processes process).origin ∧ frame.op = .reloadConfig
      then .applying else .listening) :
    (s.set process { s.processes process with queue, stage }).Inv := by
  have hold := h.process process
  have hfree : ∀ read, (s.processes process).gate ≠ some (.subscription, read) := by
    intro read hgate
    rcases stage_of_gate hold hgate with hstage' | hstage'
    · rw [hstage] at hstage'
      cases hstage'
    · rw [hstage] at hstage'
      cases hstage'
  refine h.of_stage ⟨rfl, rfl, rfl, rfl⟩ .inr (fun read hgate => absurd hgate (hfree read)) ?_
  have hconverging := h.converging process
  unfold Converging WillReload at hconverging ⊢
  rw [processes_set_self]
  intro hconnected
  rcases hconverging hconnected with
    hnewest | hunsent | ⟨other, hmem, hop, htargets, hsender⟩ | hreloads
  · exact .inl hnewest
  · exact .inr (.inl hunsent)
  · rw [hqueue] at hmem
    rcases List.mem_cons.mp hmem with rfl | hmem
    · -- Only the process itself has its origin, so the frame is no echo.
      have hother : other.isFor (s.processes process).origin = true := by
        obtain ⟨hstarted, horigin⟩ := horigins.frames process other (by
          rw [hqueue]
          exact List.mem_cons_self)
        unfold Frame.isFor
        rw [htargets, Bool.and_eq_true, bne_iff_ne]
        refine ⟨fun heq => hsender ?_, rfl⟩
        exact horigins.distinct _ _ hstarted (hold.started (.inl hconnected))
          (horigin.symm.trans heq)
      rw [if_pos ⟨hother, hop⟩] at hnew
      refine .inr (.inr (.inr ⟨.inr hnew, fun read hgate => ?_⟩))
      exact absurd hgate (hfree (some read))
    · exact .inr (.inr (.inl ⟨other, hmem, hop, htargets, hsender⟩))
  · rw [hstage] at hreloads
    rcases hreloads.1 with hstage' | hstage'
    · cases hstage'
    · cases hstage'

/-- A step keeps the invariant. -/
theorem Inv.next (h : s.Inv) (horigins : s.Origins) (hnext : s.next a = some s') : s'.Inv := by
  cases a with
  | boot process =>
    obtain ⟨hidle, hnext⟩ := Option.ite_none_left_eq_some.mp hnext
    obtain rfl := Option.some.inj hnext
    exact h.of_started ((Bool.not_eq_true _).mp hidle) rfl (Nat.le_refl _) rfl rfl _
  | fork parent child =>
    obtain ⟨hidle, hnext⟩ := Option.ite_none_left_eq_some.mp hnext
    obtain rfl := Option.some.inj hnext
    rw [Bool.or_eq_true, not_or] at hidle
    refine h.of_started ((Bool.not_eq_true _).mp hidle.1) rfl ?_ rfl rfl _
    exact (h.process parent).served
  | subscribe process =>
    obtain ⟨hguard, hnext⟩ := Option.ite_none_right_eq_some.mp hnext
    obtain rfl := Option.some.inj hnext
    rw [Bool.and_eq_true, decide_eq_true_iff] at hguard
    obtain ⟨hsubscribes, haway⟩ := hguard
    have hfree : ∀ read, (s.processes process).gate ≠ some (.subscription, read) := by
      intro read hgate
      rcases stage_of_gate (h.process process) hgate with hstage | hstage
      · rw [haway] at hstage
        cases hstage
      · rw [haway] at hstage
        cases hstage
    refine h.of_stage ⟨rfl, rfl, rfl, rfl⟩ (fun _ => .inl hsubscribes) ?_ fun _ => ?_
    · exact fun read hgate => absurd hgate (hfree read)
    · refine .inr (.inr (.inr ?_))
      rw [processes_set_self]
      exact ⟨.inl rfl, fun read hgate => absurd hgate (hfree (some read))⟩
  | drop process =>
    obtain rfl := Option.some.inj hnext
    refine h.of_stage ⟨rfl, rfl, rfl, rfl⟩ (fun hlive => by cases hlive) ?_ fun hlive => ?_
    · exact fun read hgate => stage_of_gate (h.process process) hgate
    · rw [processes_set_self] at hlive
      cases hlive
  | leave process =>
    obtain ⟨hguard, hnext⟩ := Option.ite_none_right_eq_some.mp hnext
    obtain rfl := Option.some.inj hnext
    rw [Bool.and_eq_true, decide_eq_true_iff, Bool.not_eq_true'] at hguard
    obtain ⟨hgone, hstage⟩ := hguard
    refine h.of_stage ⟨rfl, rfl, rfl, rfl⟩ .inr ?_ fun hlive => ?_
    · intro read hgate
      rcases stage_of_gate (h.process process) hgate with hreloads | hreloads
      · rw [hreloads] at hstage
        rcases hstage with hstage | hstage <;> cases hstage
      · rw [hreloads] at hstage
        rcases hstage with hstage | hstage <;> cases hstage
    · rw [processes_set_self] at hlive
      exact absurd (hgone.symm.trans hlive) Bool.false_ne_true
  | register process =>
    obtain ⟨hstage, hnext⟩ := Option.ite_none_right_eq_some.mp hnext
    obtain rfl := Option.some.inj hnext
    have hold := h.converging process
    refine h.of_stage ⟨rfl, rfl, rfl, rfl⟩ .inr ?_ ?_
    · intro read hgate
      rcases stage_of_gate (h.process process) hgate with hreloads | hreloads
      · rw [hstage] at hreloads
        cases hreloads
      · rw [hstage] at hreloads
        cases hreloads
    · unfold Converging WillReload at hold ⊢
      rw [processes_set_self]
      refine fun hlive => (hold hlive).imp_right (Or.imp_right (Or.imp_right fun hreloads => ?_))
      rw [hstage] at hreloads
      rcases hreloads.1 with hreloads | hreloads <;> cases hreloads
  | handle process =>
    simp only [Fleet.next] at hnext
    split at hnext
    · next frame queue hstage hqueue =>
      split_ifs at hnext with hguard
      · obtain rfl := Option.some.inj hnext
        rw [Bool.and_eq_true, decide_eq_true_iff] at hguard
        exact h.handle horigins hstage hqueue .applying (if_pos hguard).symm
      · obtain rfl := Option.some.inj hnext
        rw [Bool.and_eq_true, decide_eq_true_iff] at hguard
        have hinv := h.handle horigins hstage hqueue .listening (if_neg hguard).symm
        rw [← hstage] at hinv
        exact hinv
    · cases hnext
  | acquire process holder =>
    obtain ⟨⟨-, hwants⟩, hnext⟩ := Option.ite_none_right_eq_some.mp hnext
    obtain rfl := Option.some.inj hnext
    exact h.of_gate hwants fun generation hread => by cases hread
  | read process =>
    simp only [Fleet.next] at hnext
    split at hnext
    · next holder hgate =>
      obtain rfl := Option.some.inj hnext
      refine h.of_gate ((h.process process).wanted holder none hgate) fun generation hread => ?_
      exact (Option.some.inj hread).symm
    · cases hnext
  | apply process =>
    simp only [Fleet.next] at hnext
    split at hnext
    · next holder generation hgate =>
      obtain rfl := Option.some.inj hnext
      exact h.applied hgate
    · cases hnext
  | persist publisher process =>
    obtain ⟨hguard, hnext⟩ := Option.ite_none_right_eq_some.mp hnext
    obtain rfl := Option.some.inj hnext
    rw [Bool.and_eq_true, decide_eq_true_iff] at hguard
    exact h.persist hguard.1 hguard.2
  | broadcast publisher =>
    simp only [Fleet.next] at hnext
    split at hnext
    · next process generation hpublisher =>
      obtain rfl := Option.some.inj hnext
      exact h.broadcast rfl rfl hpublisher
    · cases hnext
  | publish process op targets =>
    obtain ⟨-, hnext⟩ := Option.ite_none_right_eq_some.mp hnext
    obtain rfl := Option.some.inj hnext
    exact h.deliver _

end

section

variable [DecidableEq π] [DecidableEq ρ]

theorem origins_init : ({} : Fleet π ρ).Origins where
  minted _ hstarted := by cases hstarted
  distinct _ _ hstarted := by cases hstarted
  frames _ _ hframe := absurd hframe List.not_mem_nil

theorem inv_init : ({} : Fleet π ρ).Inv where
  process _ :=
    { started := fun hrunning => hrunning.elim (fun hlive => by cases hlive) fun hlive => by
        cases hlive
      served := Nat.le_refl _
      read := fun _ _ hgate => by cases hgate
      wanted := fun _ _ hgate => by cases hgate }
  publisher _ := trivial
  converging _ hconnected := by cases hconnected

theorem inv_of_reachable {s : Fleet π ρ} (h : (workerBus π ρ).Reachable s) :
    s.Origins ∧ s.Inv := by
  refine h.invariant (p := fun s => s.Origins ∧ s.Inv) ?_ ?_
  · rintro s rfl
    exact ⟨origins_init, inv_init⟩
  · rintro s a s' ⟨horigins, hinv⟩ hnext
    refine ⟨horigins.next (fun publisher process generation hpublisher => ?_) hnext,
      hinv.next horigins hnext⟩
    have hold := hinv.publisher publisher
    unfold PublisherInv at hold
    rw [hpublisher] at hold
    exact hold.1

end

end Fleet

section

variable {π ρ : Type} [DecidableEq π] [DecidableEq ρ]

/-- In every run, a worker that is connected, listens and has an empty queue serves the newest
generation once no broadcast is still to be sent; and a frame that a worker skips as its own echo
was published by the worker itself. -/
theorem converged_of_quiet {s : Fleet π ρ} (h : (workerBus π ρ).Reachable s) :
    (∀ process, (s.processes process).connected = true →
      (s.processes process).stage = .listening → (s.processes process).queue = [] →
      (∀ publisher, (s.publishers publisher).unsent = none) →
      (s.processes process).served = s.store) ∧
    ∀ process, (s.processes process).connected = true →
      ∀ frame ∈ (s.processes process).queue, frame.origin = (s.processes process).origin →
        frame.sender = process := by
  obtain ⟨horigins, hinv⟩ := Fleet.inv_of_reachable h
  constructor
  · intro process hconnected hstage hqueue hsent
    rcases hinv.converging process hconnected with
      hnewest | ⟨publisher, hunsent⟩ | ⟨frame, hframe, -⟩ | ⟨hreloads, -⟩
    · exact hnewest
    · rw [hsent publisher] at hunsent
      cases hunsent
    · rw [hqueue] at hframe
      cases hframe
    · rw [hstage] at hreloads
      rcases hreloads with hreloads | hreloads <;> cases hreloads
  · intro process hconnected frame hframe hecho
    obtain ⟨hstarted, horigin⟩ := horigins.frames process frame hframe
    exact horigins.distinct _ _ hstarted ((hinv.process process).started (.inl hconnected))
      (horigin.symm.trans hecho)

end

/-! ## A run -/

/-- Two workers boot and join. The first forks a child, which persists a generation while the
connection of the second drops, reloads and broadcasts; the first applies the frame, and the second
reads the generation when it rejoins. -/
def forkedActs : List (Act (Fin 3) (Fin 1)) :=
  [.boot 0, .boot 1, .subscribe 0, .acquire 0 .subscription, .read 0, .apply 0, .register 0,
    .subscribe 1, .acquire 1 .subscription, .read 1, .apply 1, .register 1, .fork 0 2,
    .persist 0 2, .drop 1, .leave 1, .acquire 2 (.publisher 0), .read 2, .apply 2, .broadcast 0,
    .handle 0, .acquire 0 .subscription, .read 0, .apply 0, .subscribe 1,
    .acquire 1 .subscription, .read 1, .apply 1, .register 1]

/-- Both workers serve the generation that the child has persisted. -/
theorem converged_after_fork :
    ∃ s, (workerBus (Fin 3) (Fin 1)).Reachable s ∧ s.store = 1 ∧
      (∀ process : Fin 3, process ≠ 2 → (s.processes process).served = s.store) ∧
      ∀ process, (s.processes process).connected = true →
        ∀ frame ∈ (s.processes process).queue, frame.origin = (s.processes process).origin →
          frame.sender = process := by
  have hrun : (forkedActs.foldlM Fleet.next {}).any (fun s => decide (s.store = 1 ∧
      (∀ process : Fin 3, process ≠ 2 → (s.processes process).connected = true ∧
        (s.processes process).stage = .listening ∧ (s.processes process).queue = []) ∧
      ∀ publisher, (s.publishers publisher).unsent = none)) = true := by
    decide +kernel
  obtain ⟨s, hreachable, hs⟩ :=
    System.Reachable.of_foldlM (S := workerBus (Fin 3) (Fin 1)) (fun _ _ _ h => h) rfl hrun
  obtain ⟨hstore, hquiet, hsent⟩ := of_decide_eq_true hs
  obtain ⟨hconverged, hechoes⟩ := converged_of_quiet hreachable
  refine ⟨s, hreachable, hstore, fun process hworker => ?_, hechoes⟩
  obtain ⟨hconnected, hstage, hqueue⟩ := hquiet process hworker
  exact hconverged process hconnected hstage hqueue hsent

end TaiSkeleton.WorkerBus
