import TaiSkeleton.Operations.RunSupervisor

/-!
# Records that go one way

Both writers of a terminal status, the supervisor of a run and its readers, write it over a running
record that has not expired, and a run is recorded once. So a record that is there stays as it is,
or comes from running to a terminal status.
-/

namespace TaiSkeleton.ToolRuns

open Lib

variable {settings : Settings} {maxConcurrentRuns : ℕ} {s s' : Worker} {runId : Text}

/-! ## One way -/

/-- A record stays as it is, or comes from running to a terminal status. -/
def Record.Onward (record record' : Record) : Prop :=
  record' = record ∨ record.status = .running ∧ record'.status ≠ .running

/-- The hashes of the runs that are there go on, and those that have expired stay as they are. -/
structure Store.Onward (s s' : Store) : Prop where
  now : s.now ≤ s'.now
  runs : ∀ runId entry, s.runs runId = some entry → ∃ entry', s'.runs runId = some entry' ∧
    entry.value.Onward entry'.value ∧ (entry.expiresAt < s.now → entry' = entry)

theorem Record.Onward.trans {r r' r'' : Record} (h : r.Onward r') (h' : r'.Onward r'') :
    r.Onward r'' := by
  rcases h with rfl | ⟨hrunning, hterminal⟩
  · exact h'
  · rcases h' with rfl | ⟨hrunning', -⟩
    · exact .inr ⟨hrunning, hterminal⟩
    · exact absurd hrunning' hterminal

namespace Store.Onward

variable {t t' t'' : Store}

theorem refl (t : Store) : t.Onward t :=
  ⟨le_refl _, fun _ entry hentry => ⟨entry, hentry, .inl rfl, fun _ => rfl⟩⟩

theorem trans (h : t.Onward t') (h' : t'.Onward t'') : t.Onward t'' where
  now := h.now.trans h'.now
  runs runId entry hentry := by
    obtain ⟨entry', hentry', honward, hexpired⟩ := h.runs runId entry hentry
    obtain ⟨entry'', hentry'', honward', hexpired'⟩ := h'.runs runId entry' hentry'
    refine ⟨entry'', hentry'', honward.trans honward', fun hlate => ?_⟩
    have hsame := hexpired hlate
    rw [hexpired' (by rw [hsame]; exact hlate.trans_le h.now), hsame]

/-- A step that leaves the hashes of the runs. -/
theorem of_runs (hnow : t.now ≤ t'.now) (hruns : t'.runs = t.runs) : t.Onward t' :=
  ⟨hnow, fun _ entry hentry => ⟨entry, hruns ▸ hentry, .inl rfl, fun _ => rfl⟩⟩

/-- What is read of a run at two times, the second after the first. -/
theorem read (h : t.Onward t') {record record' : Record} (hrecord : t.run runId = some record)
    (hrecord' : t'.run runId = some record') : record.Onward record' := by
  obtain ⟨entry, hentry, -, rfl⟩ := Expiring.read_eq_some.mp hrecord
  obtain ⟨entry', hentry', -, rfl⟩ := Expiring.read_eq_some.mp hrecord'
  obtain ⟨entry'', hentry'', honward, -⟩ := h.runs runId entry hentry
  obtain rfl := Option.some.inj (hentry''.symm.trans hentry')
  exact honward

/-- The terminal write. -/
theorem mark {fields : Fields} (hterminal : fields.status ≠ .running)
    (hmark : t.markTerminalIfRunning settings runId fields = some t') : t.Onward t' := by
  unfold Store.markTerminalIfRunning at hmark
  split at hmark
  · cases hmark
  · next record hrecord =>
    obtain ⟨hrunning, hmark⟩ := Option.ite_none_right_eq_some.mp hmark
    obtain rfl := Option.some.inj hmark
    obtain ⟨old, hold, hlive, rfl⟩ := Expiring.read_eq_some.mp hrecord
    refine ⟨le_refl _, fun runId' entry hentry => ?_⟩
    by_cases hid : runId' = runId
    · subst hid
      obtain rfl := Option.some.inj (hold.symm.trans hentry)
      refine ⟨_, Function.update_self _ _ _, .inr ⟨hrunning, hterminal⟩, fun hlate => ?_⟩
      exact absurd hlate (not_lt.mpr hlive)
    · refine ⟨entry, ?_, .inl rfl, fun _ => rfl⟩
      exact (Function.update_of_ne hid _ _).trans hentry

theorem reconcile {record : Record} {livenessPresent : Bool} {clock : ℤ} :
    t.Onward (t.reconcileLost settings runId record livenessPresent clock).1 := by
  unfold Store.reconcileLost
  split_ifs
  · exact .refl t
  · split
    · next t' hmark => exact .mark (fun heq => by cases heq) hmark
    · exact .refl t

theorem push (key : Text) (score : ℤ) : t.Onward (t.push settings key runId score) :=
  .of_runs (le_refl _) rfl

/-- A run is recorded under an id that is of no run. -/
theorem create {submission : Submission} (hnone : t.runs runId = none) :
    t.Onward (t.createRun settings runId submission.toolName submission.startedAt
      submission.score submission.userId) := by
  have hrecorded : ∀ entry : Expiring Record, ∀ live : Text → Option (Expiring Unit),
      t.Onward { t with runs := Function.update t.runs runId (some entry), live } := by
    refine fun entry live => ⟨le_refl _, fun runId' old hold => ⟨old, ?_, .inl rfl, fun _ => rfl⟩⟩
    have hne : runId' ≠ runId := by
      rintro rfl
      rw [hnone] at hold
      cases hold
    exact (Function.update_of_ne hne _ _).trans hold
  unfold Store.createRun
  dsimp only
  split
  · exact (hrecorded _ _).trans (.push _ _)
  · exact ((hrecorded _ _).trans (.push _ _)).trans (.push _ _)

end Store.Onward

/-! ## The records -/

/-- A run whose submission has not recorded it has no hash, and a supervisor writes a terminal
status. -/
structure RecordInv (s : Worker) : Prop where
  unrecorded : ∀ runId, s.store.runs runId ≠ none → s.runs runId ≠ .idle ∧
    (∀ submission, s.runs runId ≠ .connecting submission) ∧
    ∀ submission, s.runs runId ≠ .creating submission
  terminal : ∀ runId fields, s.runs runId = .writing fields → fields.status ≠ .running

namespace RecordInv

theorem start : RecordInv .start where
  unrecorded _ h := absurd rfl h
  terminal _ _ h := by cases h

/-- A run goes on, and the store records it at most. -/
theorem goOn {stage : Stage} {store : Store} (h : RecordInv s)
    (hruns : s'.runs = Function.update s.runs runId stage) (hstore : s'.store = store)
    (hothers : ∀ runId', runId' ≠ runId → store.runs runId' = s.store.runs runId')
    (hstage : store.runs runId ≠ none → stage ≠ .idle ∧
      (∀ submission, stage ≠ .connecting submission) ∧
      ∀ submission, stage ≠ .creating submission)
    (hterminal : ∀ fields, stage = .writing fields → fields.status ≠ .running) :
    RecordInv s' where
  unrecorded runId' hsome := by
    rw [hruns, Function.update_apply]
    rw [hstore] at hsome
    split_ifs with hid
    · exact hstage (hid ▸ hsome)
    · rw [hothers runId' hid] at hsome
      exact h.unrecorded runId' hsome
  terminal runId' fields hwriting := by
    rw [hruns, Function.update_apply] at hwriting
    split_ifs at hwriting with hid
    · exact hterminal fields hwriting
    · exact h.terminal runId' fields hwriting

/-- The hashes of the runs are left. -/
theorem frame (h : RecordInv s) (hruns : s'.runs = s.runs)
    (hstore : ∀ runId, s'.store.runs runId ≠ none → s.store.runs runId ≠ none) : RecordInv s' where
  unrecorded runId hsome := by
    rw [hruns]
    exact h.unrecorded runId (hstore runId hsome)
  terminal runId fields hwriting := h.terminal runId fields (hruns ▸ hwriting)

end RecordInv

/-- A terminal write makes no hash. -/
theorem runs_mark {t t' : Store} {fields : Fields}
    (hmark : t.markTerminalIfRunning settings runId fields = some t') :
    (∀ runId', runId' ≠ runId → t'.runs runId' = t.runs runId') ∧ t.runs runId ≠ none := by
  unfold Store.markTerminalIfRunning at hmark
  split at hmark
  · cases hmark
  · next record hrecord =>
    obtain ⟨-, hmark⟩ := Option.ite_none_right_eq_some.mp hmark
    obtain rfl := Option.some.inj hmark
    obtain ⟨old, hold, -⟩ := Expiring.read_eq_some.mp hrecord
    refine ⟨fun runId' hid => Function.update_of_ne hid _ _, ?_⟩
    rw [hold]
    nofun

theorem runs_reconcile {t : Store} {record : Record} {livenessPresent : Bool} {clock : ℤ}
    {runId' : Text}
    (hsome : (t.reconcileLost settings runId record livenessPresent clock).1.runs runId' ≠ none) :
    t.runs runId' ≠ none := by
  unfold Store.reconcileLost at hsome
  split_ifs at hsome
  · exact hsome
  · split at hsome
    · next t' hmark =>
      obtain ⟨hothers, hpresent⟩ := runs_mark hmark
      by_cases hid : runId' = runId
      · exact hid ▸ hpresent
      · rwa [hothers runId' hid] at hsome
    · exact hsome

theorem runs_create {t : Store} {submission : Submission} {runId' : Text} (hid : runId' ≠ runId) :
    (t.createRun settings runId submission.toolName submission.startedAt submission.score
      submission.userId).runs runId' = t.runs runId' := by
  unfold Store.createRun
  dsimp only
  split <;> exact Function.update_of_ne hid _ _

/-- What a reader does to the store and to the runs. -/
theorem onward_readNext {n : ℕ} {clock : ℤ} (hnext : s.readNext settings n clock = some s') :
    s.store.Onward s'.store ∧ s'.runs = s.runs ∧ s'.active = s.active ∧
      s'.submitted = s.submitted ∧
      ∀ runId, s'.store.runs runId ≠ none → s.store.runs runId ≠ none := by
  unfold Worker.readNext at hnext
  split at hnext
  · cases hnext
  · cases hnext
  · obtain rfl := Option.some.inj hnext
    exact ⟨.refl _, rfl, rfl, rfl, fun _ => id⟩
  · obtain rfl := Option.some.inj hnext
    exact ⟨.refl _, rfl, rfl, rfl, fun _ => id⟩
  · obtain rfl := Option.some.inj hnext
    exact ⟨.of_runs (le_refl _) rfl, rfl, rfl, rfl, fun _ => id⟩
  · obtain rfl := Option.some.inj hnext
    exact ⟨.refl _, rfl, rfl, rfl, fun _ => id⟩
  · split at hnext
    · obtain rfl := Option.some.inj hnext
      exact ⟨.refl _, rfl, rfl, rfl, fun _ => id⟩
    · split_ifs at hnext <;>
      · obtain rfl := Option.some.inj hnext
        exact ⟨.refl _, rfl, rfl, rfl, fun _ => id⟩
  · obtain rfl := Option.some.inj hnext
    exact ⟨.refl _, rfl, rfl, rfl, fun _ => id⟩
  · obtain rfl := Option.some.inj hnext
    exact ⟨.refl _, rfl, rfl, rfl, fun _ => id⟩
  · obtain rfl := Option.some.inj hnext
    exact ⟨.reconcile, rfl, rfl, rfl, fun _ => runs_reconcile⟩

end TaiSkeleton.ToolRuns
