import TaiSkeleton.Lib.Counting
import TaiSkeleton.Operations.OneWayRuns

/-!
# The slots of the tool runs

The count of the runs in flight is that of the submissions past their reservation and of the live
supervisors, as long as no submission is cancelled before it has spawned its supervisor: what gives
the slot of a failed one back catches exceptions, and a cancellation is none.
-/

namespace TaiSkeleton.ToolRuns

open Lib

variable {settings : Settings} {maxConcurrentRuns : ℕ} {s s' : Worker} {runId : Text} {a : Act}

/-! ## The steps -/

/-- No submission is cancelled between its reservation and the spawn of its supervisor. -/
def Uncancelled : Act → Prop
  | .connect _ (.cancelled _) | .create _ (.cancelled _) | .release _ (.cancelled _) => False
  | _ => True

instance (a : Act) : Decidable (Uncancelled a) := by
  unfold Uncancelled
  split <;> exact inferInstance

/-- The stages of a submission, each with the one that comes after it. -/
inductive Follows : Stage → Stage → Prop where
  | connected (submission : Submission) : Follows (.connecting submission) (.creating submission)
  | created (submission : Submission) : Follows (.creating submission) .releasing
  | released : Follows .releasing .starting

/-- What a step is: it leaves the runs where they are, reserves a slot, takes a submission past one
of its awaits, or takes a supervisor on, its callback included. -/
inductive Steps (settings : Settings) (maxConcurrentRuns : ℕ) (s : Worker) : Act → Worker → Prop
    where
  | keeps {a : Act} {s' : Worker} (runs : s'.runs = s.runs) (active : s'.active = s.active)
      (submitted : s'.submitted = s.submitted) (onward : s.store.Onward s'.store)
      (hashes : ∀ runId, s'.store.runs runId ≠ none → s.store.runs runId ≠ none) :
      Steps settings maxConcurrentRuns s a s'
  | submits {runId : Text} {submission : Submission} (hfree : s.active < maxConcurrentRuns)
      (hidle : s.runs runId = .idle) :
      Steps settings maxConcurrentRuns s (.submit runId submission)
        { s.goTo runId (.connecting submission) with
          active := s.active + 1
          submitted := runId :: s.submitted }
  | awaits {a : Act} {runId : Text} {old stage : Stage} {awaited : Awaited} {store : Store}
      (hold : s.runs runId = old) (hfollows : Follows old stage)
      (hawaited : Uncancelled a → ∀ took, awaited ≠ .cancelled took)
      (hstore : store = s.store ∨ ∃ submission, s.runs runId = .creating submission ∧
        store = s.store.createRun settings runId submission.toolName submission.startedAt
          submission.score submission.userId) :
      Steps settings maxConcurrentRuns s a
        (({ s with store } : Worker).afterAwait runId stage awaited)
  | supervises {a : Act} {runId : Text} (stage : Stage) {store : Store}
      (hold : (s.runs runId).isSupervised = true)
      (hstage : stage.isSupervised = true ∨ stage = .over)
      (hstore : store = s.store ∨ ∃ fields, s.runs runId = .writing fields ∧
        s.store.markTerminalIfRunning settings runId fields = some store)
      (hterminal : ∀ fields, stage = .writing fields → fields.status ≠ .running) :
      Steps settings maxConcurrentRuns s a
        { s.goTo runId stage with
          store
          active := if stage.isSupervised then s.active else s.active - 1 }

theorem steps_of_next (hnext : s.next settings maxConcurrentRuns a = some s') :
    Steps settings maxConcurrentRuns s a s' := by
  cases a with
  | tick seconds =>
    obtain rfl := Option.some.inj hnext
    refine .keeps rfl rfl rfl (.of_runs ?_ rfl) fun _ => id
    exact Int.le_add_of_nonneg_right (Int.natCast_nonneg seconds)
  | submit runId submission =>
    unfold Worker.next at hnext
    dsimp only at hnext
    split_ifs at hnext with hcap
    · obtain rfl := Option.some.inj hnext
      exact .keeps rfl rfl rfl (.refl _) fun _ => id
    · split at hnext
      · next hidle =>
        obtain rfl := Option.some.inj hnext
        exact .submits (not_le.mp hcap) hidle
      · cases hnext
  | connect runId awaited =>
    unfold Worker.next at hnext
    dsimp only at hnext
    split at hnext
    · next submission hold =>
      obtain rfl := Option.some.inj hnext
      exact .awaits hold (.connected submission) (by rintro h took rfl; exact h) (.inl rfl)
    · cases hnext
  | create runId awaited =>
    unfold Worker.next at hnext
    dsimp only at hnext
    split at hnext
    · next submission hold =>
      obtain rfl := Option.some.inj hnext
      refine .awaits hold (.created submission) (by rintro h took rfl; exact h) ?_
      split_ifs
      · exact .inr ⟨submission, hold, rfl⟩
      · exact .inl rfl
    · cases hnext
  | release runId awaited =>
    unfold Worker.next at hnext
    dsimp only at hnext
    split at hnext
    · next hold =>
      obtain rfl := Option.some.inj hnext
      exact .awaits hold .released (by rintro h took rfl; exact h) (.inl rfl)
    · cases hnext
  | start runId awaited =>
    unfold Worker.next at hnext
    dsimp only at hnext
    split at hnext
    · next hold =>
      obtain rfl := Option.some.inj hnext
      have hold' : (s.runs runId).isSupervised = true := by rw [hold]; rfl
      split_ifs
      · exact .supervises .working hold' (.inl rfl) (.inl rfl) nofun
      · exact .supervises .finished hold' (.inl rfl) (.inl rfl) nofun
    · cases hnext
  | refresh runId =>
    unfold Worker.next at hnext
    dsimp only at hnext
    split at hnext
    · obtain rfl := Option.some.inj hnext
      exact .keeps rfl rfl rfl (.of_runs (le_refl _) rfl) fun _ => id
    · obtain rfl := Option.some.inj hnext
      exact .keeps rfl rfl rfl (.of_runs (le_refl _) rfl) fun _ => id
    · cases hnext
  | tool runId outcome clock =>
    unfold Worker.next at hnext
    dsimp only at hnext
    split at hnext
    · next hold =>
      obtain rfl := Option.some.inj hnext
      have hold' : (s.runs runId).isSupervised = true := by rw [hold]; rfl
      refine .supervises (.writing (outcome.fields clock)) hold' (.inl rfl) (.inl rfl) ?_
      rintro fields ⟨⟩
      cases outcome <;> exact fun heq => by cases heq
    · cases hnext
  | write runId awaited =>
    unfold Worker.next at hnext
    dsimp only at hnext
    split at hnext
    · next fields hold =>
      obtain rfl := Option.some.inj hnext
      have hold' : (s.runs runId).isSupervised = true := by rw [hold]; rfl
      refine .supervises .finished hold' (.inl rfl) ?_ nofun
      split_ifs
      · cases hmark : s.store.markTerminalIfRunning settings runId fields with
        | none => exact .inl rfl
        | some store => exact .inr ⟨fields, hold, hmark⟩
      · exact .inl rfl
    · cases hnext
  | callback runId =>
    unfold Worker.next at hnext
    dsimp only at hnext
    split at hnext
    · next hold =>
      obtain rfl := Option.some.inj hnext
      have hold' : (s.runs runId).isSupervised = true := by rw [hold]; rfl
      exact .supervises .over hold' (.inr rfl) (.inl rfl) nofun
    · cases hnext
  | list n toolName user =>
    unfold Worker.next at hnext
    dsimp only at hnext
    split at hnext
    · obtain rfl := Option.some.inj hnext
      exact .keeps rfl rfl rfl (.refl _) fun _ => id
    · cases hnext
  | get n runId restricted =>
    unfold Worker.next at hnext
    dsimp only at hnext
    split at hnext
    · obtain rfl := Option.some.inj hnext
      exact .keeps rfl rfl rfl (.refl _) fun _ => id
    · cases hnext
  | read n clock =>
    obtain ⟨honward, hruns, hactive, hsubmitted, hhashes⟩ := onward_readNext hnext
    exact .keeps hruns hactive hsubmitted honward hhashes
  | quit n =>
    obtain rfl := Option.some.inj hnext
    exact .keeps rfl rfl rfl (.refl _) fun _ => id

/-- A submission past an await is at its next stage or over, and only its store is touched. -/
theorem Worker.afterAwait_eq (s : Worker) (runId : Text) (stage : Stage) (awaited : Awaited) :
    (s.afterAwait runId stage awaited).runs = Function.update s.runs runId
        (if awaited = .returned then stage else .over) ∧
      (s.afterAwait runId stage awaited).store = s.store ∧
      (s.afterAwait runId stage awaited).submitted = s.submitted := by
  cases awaited with
  | returned => exact ⟨by rw [if_pos rfl]; rfl, rfl, rfl⟩
  | _ => exact ⟨by rw [if_neg nofun]; rfl, rfl, rfl⟩

/-- Every step keeps the records' invariant and takes the records one way. -/
theorem RecordInv.step (h : RecordInv s) (hsteps : Steps settings maxConcurrentRuns s a s') :
    RecordInv s' ∧ s.store.Onward s'.store := by
  cases hsteps with
  | keeps hruns _ _ honward hhashes => exact ⟨h.frame hruns hhashes, honward⟩
  | @submits runId submission hfree hidle =>
    have hnone : s.store.runs runId = none := by
      by_contra hsome
      exact (h.unrecorded runId hsome).1 hidle
    refine ⟨h.goOn rfl rfl (fun _ _ => rfl) (fun hsome => absurd hnone hsome) nofun, .refl _⟩
  | @awaits _ runId old stage awaited store hold hfollows _ hstore =>
    obtain ⟨hruns, hstore', -⟩ :=
      ({ s with store } : Worker).afterAwait_eq runId stage awaited
    have hothers : ∀ runId', runId' ≠ runId → store.runs runId' = s.store.runs runId' := by
      intro runId' hid
      rcases hstore with rfl | ⟨submission, -, rfl⟩
      · rfl
      · exact runs_create hid
    refine ⟨h.goOn hruns hstore' hothers ?_ ?_, ?_⟩
    · intro hsome
      split_ifs
      · cases hfollows with
        | connected submission =>
          rcases hstore with rfl | ⟨submission', hcreating, -⟩
          · exact absurd hold ((h.unrecorded runId hsome).2.1 submission)
          · rw [hold] at hcreating
            cases hcreating
        | _ => exact ⟨nofun, nofun, nofun⟩
      · exact ⟨nofun, nofun, nofun⟩
    · intro fields hwriting
      split_ifs at hwriting
      subst hwriting
      cases hfollows
    · rw [hstore']
      rcases hstore with rfl | ⟨submission, hcreating, rfl⟩
      · exact .refl _
      · refine .create ?_
        by_contra hsome
        exact (h.unrecorded runId hsome).2.2 submission hcreating
  | @supervises _ runId stage store hold hstage hstore hterminal =>
    have hothers : ∀ runId', runId' ≠ runId → store.runs runId' = s.store.runs runId' := by
      intro runId' hid
      rcases hstore with rfl | ⟨fields, -, hmark⟩
      · rfl
      · exact (runs_mark hmark).1 runId' hid
    refine ⟨h.goOn rfl rfl hothers (fun _ => ?_) hterminal, ?_⟩
    · rcases hstage with hstage | rfl
      · refine ⟨?_, fun submission => ?_, fun submission => ?_⟩ <;>
        · rintro rfl
          cases hstage
      · exact ⟨nofun, nofun, nofun⟩
    · rcases hstore with rfl | ⟨fields, hwriting, hmark⟩
      · exact .refl _
      · exact .mark (h.terminal runId fields hwriting) hmark

/-! ## The slots -/

/-- The run holds a slot. -/
def Stage.holdsSlot (stage : Stage) : Bool := stage.isSubmitting || stage.isSupervised

/-- A submission is done when its supervisor is spawned. -/
theorem Stage.not_both (stage : Stage) :
    ¬(stage.isSubmitting = true ∧ stage.isSupervised = true) := by
  cases stage <;> simp [isSubmitting, isSupervised]

/-- The count of the runs in flight is that of the runs that hold a slot. -/
structure SlotInv (maxConcurrentRuns : ℕ) (s : Worker) : Prop where
  nodup : s.submitted.Nodup
  known : ∀ runId, s.runs runId ≠ .idle ↔ runId ∈ s.submitted
  active : s.active = s.submitted.countP fun runId => (s.runs runId).holdsSlot
  capped : s.active ≤ maxConcurrentRuns

namespace SlotInv

theorem start : SlotInv maxConcurrentRuns .start where
  nodup := List.nodup_nil
  known _ := iff_of_false (fun h => h rfl) List.not_mem_nil
  active := rfl
  capped := Int.natCast_nonneg _

/-- A run goes on, and gives its slot back where it holds none any more. -/
theorem goOn {stage : Stage} (h : SlotInv maxConcurrentRuns s)
    (hruns : s'.runs = Function.update s.runs runId stage) (hsubmitted : s'.submitted = s.submitted)
    (hold : (s.runs runId).holdsSlot = true) (hstage : stage ≠ .idle)
    (hactive : s'.active = if stage.holdsSlot then s.active else s.active - 1) :
    SlotInv maxConcurrentRuns s' := by
  have hbusy : s.runs runId ≠ .idle := by
    intro hidle
    rw [hidle] at hold
    cases hold
  have hcount := countP_update (f := s.runs) (p := Stage.holdsSlot) (b := stage) h.nodup
    ((h.known runId).mp hbusy)
  have hbefore := h.active
  have hcapped := h.capped
  rw [hold] at hcount
  refine ⟨hsubmitted ▸ h.nodup, fun runId' => ?_, ?_, ?_⟩
  · rw [hruns, hsubmitted, ← h.known, Function.update_apply]
    split_ifs with hid
    · rw [hid]
      exact iff_of_true hstage hbusy
    · exact Iff.rfl
  · rw [hruns, hsubmitted, hactive]
    cases hslot : stage.holdsSlot with
    | true =>
      rw [hslot] at hcount
      simp only [Bool.toNat_true] at hcount
      rw [if_pos rfl]
      omega
    | false =>
      rw [hslot] at hcount
      simp only [Bool.toNat_true, Bool.toNat_false] at hcount
      rw [if_neg Bool.false_ne_true]
      omega
  · rw [hactive]
    split_ifs <;> omega

theorem step (h : SlotInv maxConcurrentRuns s) (hok : Uncancelled a)
    (hsteps : Steps settings maxConcurrentRuns s a s') : SlotInv maxConcurrentRuns s' := by
  cases hsteps with
  | keeps hruns hactive hsubmitted _ _ =>
    refine ⟨hsubmitted ▸ h.nodup, ?_, ?_, hactive ▸ h.capped⟩
    · rw [hruns, hsubmitted]
      exact h.known
    · rw [hruns, hsubmitted, hactive]
      exact h.active
  | @submits runId submission hfree hidle =>
    have hnew : runId ∉ s.submitted := fun hmem => (h.known runId).mpr hmem hidle
    refine ⟨List.nodup_cons.mpr ⟨hnew, h.nodup⟩, fun runId' => ?_, ?_, ?_⟩
    · show Function.update s.runs runId _ runId' ≠ _ ↔ runId' ∈ runId :: s.submitted
      rw [Function.update_apply, List.mem_cons, ← h.known]
      split_ifs with hid
      · exact iff_of_true nofun (.inl hid)
      · exact (or_iff_right hid).symm
    · show s.active + 1 = ((runId :: s.submitted).countP fun x =>
        (Function.update s.runs runId (.connecting submission) x).holdsSlot : ℕ)
      have hrest : s.submitted.countP (fun x =>
          (Function.update s.runs runId (.connecting submission) x).holdsSlot) =
          s.submitted.countP fun x => (s.runs x).holdsSlot := by
        refine List.countP_congr fun x hx => ?_
        have hne : x ≠ runId := by
          rintro rfl
          exact hnew hx
        rw [Function.update_of_ne hne]
      rw [List.countP_cons, hrest, Function.update_self, h.active]
      rfl
    · show s.active + 1 ≤ _
      omega
  | @awaits _ runId old stage awaited store hold hfollows hawaited _ =>
    obtain ⟨hruns, -, hsubmitted⟩ :=
      ({ s with store } : Worker).afterAwait_eq runId stage awaited
    have hslot : (s.runs runId).holdsSlot = true := by
      rw [hold]
      cases hfollows <;> rfl
    cases awaited with
    | returned =>
      refine h.goOn hruns hsubmitted hslot ?_ ?_
      · rw [if_pos rfl]
        rintro rfl
        cases hfollows
      · have hslot' : stage.holdsSlot = true := by cases hfollows <;> rfl
        rw [if_pos rfl, if_pos hslot']
        rfl
    | failed took =>
      refine h.goOn hruns hsubmitted hslot ?_ ?_
      · rw [if_neg nofun]
        nofun
      · rw [if_neg (c := Awaited.failed took = .returned) nofun]
        rfl
    | cancelled took => exact absurd rfl (hawaited hok took)
  | @supervises _ runId stage store hold hstage _ _ =>
    have hslot : stage.holdsSlot = stage.isSupervised := by
      rcases hstage with hstage | rfl
      · rw [hstage]
        unfold Stage.holdsSlot
        rw [hstage, Bool.or_true]
      · rfl
    refine h.goOn (rfl : _ = Function.update s.runs runId stage) rfl ?_ ?_ ?_
    · unfold Stage.holdsSlot
      rw [hold, Bool.or_true]
    · rintro rfl
      rcases hstage with hstage | hstage
      · cases hstage
      · cases hstage
    · rw [hslot]

end SlotInv

/-! ## Every run -/

/-- The runs in which no submission is cancelled after its reservation. -/
def uncancelledRuns (settings : Settings) (maxConcurrentRuns : ℕ) : System Worker Act :=
  (toolRuns settings maxConcurrentRuns).when fun _ => Uncancelled

/-- The count of the runs in flight is that of the submissions between reservation and spawn and of
the live supervisors, it stays within its bounds, and it is zero where there is neither. -/
structure Accounted (maxConcurrentRuns : ℕ) (s : Worker) : Prop where
  active : s.active = (s.submitted.countP fun runId => (s.runs runId).isSubmitting) +
    (s.submitted.countP fun runId => (s.runs runId).isSupervised)
  once : s.submitted.Nodup
  known : ∀ runId, (s.runs runId).isSubmitting = true ∨ (s.runs runId).isSupervised = true →
    runId ∈ s.submitted
  nonneg : 0 ≤ s.active
  capped : s.active ≤ maxConcurrentRuns
  idle : (∀ runId, (s.runs runId).isSubmitting = false ∧ (s.runs runId).isSupervised = false) →
    s.active = 0

theorem SlotInv.accounted (h : SlotInv maxConcurrentRuns s) : Accounted maxConcurrentRuns s where
  active := by
    have hsplit := countP_or (l := s.submitted) (p := fun runId => (s.runs runId).isSubmitting)
      (q := fun runId => (s.runs runId).isSupervised) fun runId _ => (s.runs runId).not_both
    rw [h.active, ← Int.natCast_add, ← hsplit]
    rfl
  once := h.nodup
  known runId hbusy := by
    rw [← h.known]
    intro hidle
    rw [hidle] at hbusy
    rcases hbusy with hbusy | hbusy <;> cases hbusy
  nonneg := by
    rw [h.active]
    exact Int.natCast_nonneg _
  capped := h.capped
  idle hnone := by
    rw [h.active, List.countP_eq_zero.mpr fun runId _ => ?_]
    · rfl
    · unfold Stage.holdsSlot
      rw [(hnone runId).1, (hnone runId).2]
      exact Bool.false_ne_true

/-- However the runs come in between each other, no record that is there leaves a terminal status or
changes under it. -/
theorem onward_of_run (hinv : RecordInv s) (h : (toolRuns settings maxConcurrentRuns).Run s s') :
    s.store.Onward s'.store := by
  suffices RecordInv s' ∧ s.store.Onward s'.store from this.2
  induction h with
  | refl => exact ⟨hinv, .refl s.store⟩
  | tail _ last ih =>
    obtain ⟨hinv', hrel⟩ := ih
    obtain ⟨hlast, hnext⟩ := hinv'.step (steps_of_next last)
    exact ⟨hlast, hrel.trans hnext⟩

/-- In every run without a cancelled submission the slots are accounted for; and from every state
that is reached, whatever comes, a run that is read again has the record of before, unless that was
running and the record is terminal now. -/
theorem accounted_and_one_way (h : (uncancelledRuns settings maxConcurrentRuns).Reachable s) :
    Accounted maxConcurrentRuns s ∧
      ∀ s', (toolRuns settings maxConcurrentRuns).Run s s' → ∀ runId record record',
        s.store.run runId = some record → s'.store.run runId = some record' →
          record' = record ∨ record.status = .running ∧ record'.status ≠ .running := by
  obtain ⟨hrecords, hslots⟩ : RecordInv s ∧ SlotInv maxConcurrentRuns s := by
    refine h.invariant (p := fun s => RecordInv s ∧ SlotInv maxConcurrentRuns s) ?_ ?_
    · rintro s rfl
      exact ⟨.start, .start⟩
    · rintro s a s' ⟨hrecords, hslots⟩ ⟨hok, hnext⟩
      have hsteps := steps_of_next hnext
      exact ⟨(hrecords.step hsteps).1, hslots.step hok hsteps⟩
  refine ⟨hslots.accounted, fun s' hrun runId record record' hrecord hrecord' => ?_⟩
  exact (onward_of_run hrecords hrun).read hrecord hrecord'

/-! ## A slot that is lost -/

def someSettings : Settings := ⟨50, 86400, 30⟩

def someSubmission : Submission := ⟨['t'], 0, 0, none⟩

/-- A run is submitted, up to the call of its tool. -/
def workingActs : List Act :=
  [.submit ['1'] someSubmission, .connect ['1'] .returned, .create ['1'] .returned,
    .release ['1'] .returned, .start ['1'] .returned]

/-- A run whose tool raises holds the one slot until its callback, and its record fails. -/
theorem accounted_failed_tool : ∃ s s' : Worker, ∃ record record',
    (uncancelledRuns someSettings 1).Reachable s ∧ (toolRuns someSettings 1).Run s s' ∧
      s.active = 1 ∧ s'.active = 0 ∧ Accounted 1 s ∧ s.store.run ['1'] = some record ∧
      s'.store.run ['1'] = some record' ∧
      (record' = record ∨ record.status = .running ∧ record'.status ≠ .running) := by
  obtain ⟨s, hs, hp⟩ := System.Reachable.of_foldlM (S := uncancelledRuns someSettings 1)
    (f := System.guarded (Worker.next someSettings 1) fun _ a => decide (Uncancelled a))
    (s := .start)
    (p := fun s => s.active == 1 && (s.store.run ['1']).isSome &&
      ([.tool ['1'] (.raised ['e']) 5, .write ['1'] .returned, .callback ['1']].foldlM
        (Worker.next someSettings 1) s).any fun s' =>
          s'.active == 0 && (s'.store.run ['1']).isSome)
    (l := workingActs)
    (fun _ a _ h => ⟨of_decide_eq_true (p := Uncancelled a) (System.step_of_guarded h).1,
      (System.step_of_guarded h).2⟩) rfl (by decide +kernel)
  simp only [Bool.and_eq_true, beq_iff_eq, Option.any_eq_true] at hp
  obtain ⟨⟨hactive, hrecord⟩, s', hs', hactive', hrecord'⟩ := hp
  obtain ⟨record, hrecord⟩ := Option.isSome_iff_exists.mp hrecord
  obtain ⟨record', hrecord'⟩ := Option.isSome_iff_exists.mp hrecord'
  have hrun : (toolRuns someSettings 1).Run s s' := .of_foldlM (fun _ _ _ h => h) hs'
  obtain ⟨haccounted, honward⟩ := accounted_and_one_way hs
  exact ⟨s, s', record, record', hs, hrun, hactive, hactive', haccounted, hrecord, hrecord',
    honward s' hrun ['1'] record record' hrecord hrecord'⟩

/-- A submission that is cancelled while it enters the client keeps the one slot for good: nothing is
in flight, and the next submission is refused. -/
theorem slot_lost : ∃ s : Worker, (toolRuns someSettings 1).Reachable s ∧ s.active = 1 ∧
    s.submitted = [['1']] ∧ (s.runs ['1']).isSubmitting = false ∧
    (s.runs ['1']).isSupervised = false ∧
    s.next someSettings 1 (.submit ['2'] someSubmission) = some s ∧ ¬Accounted 1 s := by
  obtain ⟨s, hs, hp⟩ := System.Reachable.of_foldlM (S := toolRuns someSettings 1)
    (f := Worker.next someSettings 1) (s := .start)
    (p := fun s => s.active == 1 && s.submitted == [['1']] &&
      !(s.runs ['1']).isSubmitting && !(s.runs ['1']).isSupervised)
    (l := [.submit ['1'] someSubmission, .connect ['1'] (.cancelled false)])
    (fun _ _ _ h => h) rfl (by decide +kernel)
  simp only [Bool.and_eq_true, beq_iff_eq, Bool.not_eq_true'] at hp
  obtain ⟨⟨⟨hactive, hsubmitted⟩, hnot⟩, hnot'⟩ := hp
  refine ⟨s, hs, hactive, hsubmitted, hnot, hnot', ?_, fun h => ?_⟩
  · unfold Worker.next
    dsimp only
    rw [if_pos (by rw [hactive]; rfl)]
  · have hcount := h.active
    rw [hactive, hsubmitted] at hcount
    simp [hnot, hnot'] at hcount

end TaiSkeleton.ToolRuns
