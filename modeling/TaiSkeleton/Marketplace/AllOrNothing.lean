import TaiSkeleton.Marketplace.PackageSet

/-!
# All or nothing

A job that ends in anything but success or an unwind error has left the stores as they were, but
for the edits of the other writers; an uninstall that did not end can be run again. The condition on
a step says what has to be so for that: of a step that fails, what it leaves; of an unwind, what it
finds to put back.
-/

namespace TaiSkeleton.Marketplace

open Lib Config

variable {κ ν : Type}

namespace World

variable (D : Deployment κ ν) (s : World κ ν)

/-! ## What is kept -/

/-- The stores are as they were when the call began, but for the edits of the other writers. -/
structure Untouched : Prop where
  manifest : s.manifest = s.expected
  row : s.row = s.rowBefore
  packages : s.packages = s.packagesBefore

/-- The foreign entries are what the other writers have made of them. -/
def ForeignKept (targets : List FieldTargets) : Prop :=
  removeProvides targets s.manifest = removeProvides targets s.expected

/-- No reference, no row and no package. -/
structure Removed (targets : List FieldTargets) (spec : PluginSpec κ) : Prop where
  clear : Clear targets s.manifest
  row : s.row = none
  gone : D.Gone s.packages spec.package

/-- The row of the plugin is there, and its package can be removed. -/
structure Removable (spec : PluginSpec κ) : Prop where
  row : ∃ row, s.row = some row ∧ row.spec = some spec
  packages : D.removable s.packages spec.package = true

/-! ## The condition -/

section

variable [PyNumber ν]

/-- The seal leaves the stripped document as it is. -/
def SealsStripped (spec : PluginSpec κ) : Prop :=
  ∀ targets ∈ groupedTargets D.bindings spec,
    ∀ document ∈ D.compose (removeProvides targets s.manifest) s.manifest,
      document = removeProvides targets s.manifest

/-- A step that returns: the document that is put back is what the other writers have made of the
one before the call, and the package steps of the unwind find what they are to leave. -/
def OkOrderly : Prop :=
  match s.phase with
  | .restoring _ saved =>
    saved = s.expected ∧ ∀ document ∈ D.compose saved s.manifest, document = saved
  | .removing job => D.Lacks s.packagesBefore job.spec.package
  | .reinstalling job => D.Pinned job s.packagesBefore
  | .reverting job _ => D.Pinned job s.packagesBefore ∧ D.Replaces job s.packagesBefore
  | .stripping spec => s.SealsStripped D spec
  | _ => True

/-- A step that raises: a package step leaves the package set as it was, a write is not committed,
and the snapshot is read. An uninstall leaves a package that can still be removed; once it is
removed from a prefix the row is dropped. -/
def FailOrderly (landed : Bool) (left : Packages) : Prop :=
  match s.phase with
  | .removingOld _ => left = s.packages
  | .installing _ => left = s.packages
  | .snapshotting _ => s.packages = s.packagesBefore
  | .applying _ _ => landed = false
  | .recording _ _ => landed = false
  | .stripping spec => s.SealsStripped D spec
  | .uninstalling spec => D.removable left spec.package = true
  | .deleting spec => landed = true ∨ D.removable s.packages spec.package = true
  | _ => True

/-- A cancellation arrives where the stores are as they were, or in an uninstall that has not to
drop the row of a package it has removed from a prefix. -/
def CancelOrderly (landed : Bool) (left : Packages) : Prop :=
  match s.phase with
  | .deregistering _ => True
  | .uninstalling _ => True
  | .deleting spec => landed = true ∨ D.removable s.packages spec.package = true
  | _ => s.manifest = s.expected ∧ s.packagesLeft left = s.packagesBefore ∧ landed = false

/-- The condition on a step. An uninstall begins with a row that can be read, of a package that can
be removed. -/
def Orderly : Act κ ν → Prop
  | .ok => s.OkOrderly D
  | .fail landed left => s.FailOrderly D landed left
  | .cancel landed left => s.CancelOrderly D landed left
  | .uninstall => ∀ row ∈ s.row, ∃ spec, row.spec = some spec ∧
      (groupedTargets D.bindings spec).isSome = true ∧ D.removable s.packages spec.package = true
  | _ => True

end

/-! ## The invariant -/

/-- What holds of a job whose package step is done. -/
structure Installed (job : Job κ) : Prop where
  row : s.row = s.rowBefore
  packages : D.installed job s.packagesBefore = some s.packages

/-- What the restore of the document finds: an update has its old pin back, an install has its
package still to remove. -/
structure Restorable (job : Job κ) : Prop where
  row : s.row = s.rowBefore
  packages : if job.old.isSome then s.packages = s.packagesBefore
    else D.installed job s.packagesBefore = some s.packages

/-- What holds of an uninstall: the foreign entries are kept, and `P` of the targets of the
plugin. -/
def Uninstalls (spec : PluginSpec κ) (P : List FieldTargets → Prop) : Prop :=
  ∃ targets, groupedTargets D.bindings spec = some targets ∧ s.ForeignKept targets ∧ P targets

/-- What holds of the stores in a phase. -/
def At : Phase κ ν → Prop
  | .idle => True
  | .refused => s.Untouched
  | .resolving _ => s.Untouched
  | .removingOld _ => s.Untouched ∧ D.hasPrefix = true
  | .installing job => s.manifest = s.expected ∧ s.row = s.rowBefore ∧
      D.ready job s.packagesBefore = some s.packages
  | .reinstalling job => s.manifest = s.expected ∧ s.row = s.rowBefore ∧
      D.ready job s.packagesBefore = some s.packages ∧ D.hasPrefix = true ∧ job.old ≠ none
  | .snapshotting job => s.manifest = s.expected ∧ s.Installed D job
  | .applying job _ => s.manifest = s.expected ∧ s.Installed D job
  | .reloading job _ => s.Installed D job
  | .recording job _ => s.Installed D job
  | .undoing job saved => (saved = none → s.manifest = s.expected) ∧ s.Installed D job ∧
      D.hasPrefix = true ∧ job.old ≠ none
  | .reverting job saved => (saved = none → s.manifest = s.expected) ∧ s.row = s.rowBefore ∧
      D.undone job s.packagesBefore = some s.packages ∧ job.old ≠ none
  | .restoring job _ => s.Restorable D job
  | .converging job => s.manifest = s.expected ∧ s.Restorable D job
  | .removing job => s.manifest = s.expected ∧ s.Installed D job ∧ job.old = none
  | .ended _ result => result ≠ .succeeded → result ≠ .unwindError → s.Untouched
  | .stripping spec => s.Uninstalls D spec fun _ => s.Removable D spec
  | .deregistering spec => s.Uninstalls D spec fun targets =>
      Clear targets s.manifest ∧ s.Removable D spec
  | .uninstalling spec => s.Uninstalls D spec fun targets =>
      Clear targets s.manifest ∧ s.Removable D spec
  | .deleting spec => s.Uninstalls D spec fun targets => Clear targets s.manifest ∧
      D.Gone s.packages spec.package ∧ ∃ row, s.row = some row ∧ row.spec = some spec
  | .uninstallEnded spec result => s.Uninstalls D spec fun targets =>
      s.Removed D targets spec ∨ result ≠ .succeeded ∧ s.Removable D spec

variable {D : Deployment κ ν} {s s' : World κ ν}

theorem Uninstalls.imp {spec : PluginSpec κ} {P P' : List FieldTargets → Prop}
    (h : s.Uninstalls D spec P) (himp : ∀ targets, groupedTargets D.bindings spec = some targets →
      s.ForeignKept targets → P targets → s'.ForeignKept targets ∧ P' targets) :
    s'.Uninstalls D spec P' := by
  obtain ⟨targets, hgrouped, hforeign, hP⟩ := h
  exact ⟨targets, hgrouped, himp targets hgrouped hforeign hP⟩

/-! ## Edits -/

theorem ForeignKept.edit {targets : List FieldTargets} {f : Manifest ν → Manifest ν}
    (h : s.ForeignKept targets) (hf : Foreign targets f) :
    ({ s with manifest := f s.manifest, expected := f s.expected } : World κ ν).ForeignKept
      targets := by
  show removeProvides targets (f s.manifest) = removeProvides targets (f s.expected)
  calc removeProvides targets (f s.manifest)
      = removeProvides targets (f (removeProvides targets s.manifest)) := hf.strips _
    _ = removeProvides targets (f (removeProvides targets s.expected)) := by rw [h]
    _ = removeProvides targets (f s.expected) := (hf.strips _).symm

/-- An edit is made of what the call is to leave, too. -/
theorem At.edit {f : Manifest ν → Manifest ν} {phase : Phase κ ν} (h : s.At D phase)
    (hf : ∀ spec ∈ phase.uninstalls, ∀ targets ∈ groupedTargets D.bindings spec,
      Foreign targets f) :
    ({ s with manifest := f s.manifest, expected := f s.expected } : World κ ν).At D phase := by
  have hmanifest (h : s.manifest = s.expected) : f s.manifest = f s.expected := congrArg f h
  have huntouched (h : s.Untouched) :
      ({ s with manifest := f s.manifest, expected := f s.expected } : World κ ν).Untouched :=
    ⟨hmanifest h.manifest, h.row, h.packages⟩
  cases phase with
  | idle => trivial
  | refused => exact huntouched h
  | resolving job => exact huntouched h
  | removingOld job => exact ⟨huntouched h.1, h.2⟩
  | installing job => exact ⟨hmanifest h.1, h.2⟩
  | reinstalling job => exact ⟨hmanifest h.1, h.2⟩
  | snapshotting job => exact ⟨hmanifest h.1, h.2.1, h.2.2⟩
  | applying job saved => exact ⟨hmanifest h.1, h.2.1, h.2.2⟩
  | reloading job saved => exact ⟨h.1, h.2⟩
  | recording job saved => exact ⟨h.1, h.2⟩
  | undoing job saved => exact ⟨fun hnone => hmanifest (h.1 hnone), ⟨h.2.1.1, h.2.1.2⟩, h.2.2⟩
  | reverting job saved => exact ⟨fun hnone => hmanifest (h.1 hnone), h.2⟩
  | restoring job saved => exact ⟨h.1, h.2⟩
  | converging job => exact ⟨hmanifest h.1, h.2.1, h.2.2⟩
  | removing job => exact ⟨hmanifest h.1, ⟨h.2.1.1, h.2.1.2⟩, h.2.2⟩
  | ended job result => exact fun hsuccess hunwind => huntouched (h hsuccess hunwind)
  | stripping spec =>
    refine h.imp fun targets hgrouped hforeign hP => ?_
    exact ⟨hforeign.edit (hf spec rfl targets hgrouped), hP.1, hP.2⟩
  | deregistering spec =>
    refine h.imp fun targets hgrouped hforeign hP => ?_
    have hf := hf spec rfl targets hgrouped
    exact ⟨hforeign.edit hf, hf.clear _ hP.1, hP.2.1, hP.2.2⟩
  | uninstalling spec =>
    refine h.imp fun targets hgrouped hforeign hP => ?_
    have hf := hf spec rfl targets hgrouped
    exact ⟨hforeign.edit hf, hf.clear _ hP.1, hP.2.1, hP.2.2⟩
  | deleting spec =>
    refine h.imp fun targets hgrouped hforeign hP => ?_
    have hf := hf spec rfl targets hgrouped
    exact ⟨hforeign.edit hf, hf.clear _ hP.1, hP.2⟩
  | uninstallEnded spec result =>
    refine h.imp fun targets hgrouped hforeign hP => ?_
    have hf := hf spec rfl targets hgrouped
    refine ⟨hforeign.edit hf, hP.imp (fun hremoved => ?_) fun hP => ⟨hP.1, hP.2.1, hP.2.2⟩⟩
    exact ⟨hf.clear _ hremoved.clear, hremoved.row, hremoved.gone⟩

/-! ## Calls begin -/

theorem untouched_begin (s : World κ ν) (phase : Phase κ ν) : (s.begin phase).Untouched :=
  ⟨rfl, rfl, rfl⟩

theorem at_uninstall {phase : Phase κ ν}
    (horderly : ∀ row ∈ s.row, ∃ spec, row.spec = some spec ∧
      (groupedTargets D.bindings spec).isSome = true ∧ D.removable s.packages spec.package = true)
    (hphase : phase = match s.row.bind (·.spec) with
      | none => .refused
      | some spec => .stripping spec) : (s.begin phase).At D phase := by
  cases hspec : s.row.bind (·.spec) with
  | none =>
    rw [hspec] at hphase
    subst hphase
    exact untouched_begin s _
  | some spec =>
    rw [hspec] at hphase
    subst hphase
    obtain ⟨row, hrow, hread⟩ := Option.bind_eq_some_iff.mp hspec
    obtain ⟨spec', hspec', hgrouped, hremovable⟩ := horderly row hrow
    obtain rfl := Option.some.inj (hread.symm.trans hspec')
    obtain ⟨targets, htargets⟩ := Option.isSome_iff_exists.mp hgrouped
    exact ⟨targets, htargets, rfl, ⟨row, hrow, hread⟩, hremovable⟩

/-! ## Steps that return -/

variable [PyNumber ν]

theorem At.ok (h : s.At D s.phase) (horderly : s.OkOrderly D) (hok : s.ok D = some s') :
    s'.At D s'.phase := by
  obtain ⟨manifest, row, packages, phase, expected, rowBefore, packagesBefore⟩ := s
  cases phase with
  | idle => cases hok
  | refused => cases hok
  | ended job result => cases hok
  | uninstallEnded spec result => cases hok
  | resolving job =>
    obtain ⟨-, hok⟩ := Option.ite_none_right_eq_some.mp hok
    obtain rfl := Option.some.inj hok
    obtain ⟨hmanifest, hrow, hpackages⟩ : Untouched _ := h
    dsimp only at hmanifest hrow hpackages ⊢
    split_ifs with hfirst
    · exact ⟨⟨hmanifest, hrow, hpackages⟩, ((Bool.and_eq_true _ _).mp hfirst).1⟩
    · refine ⟨hmanifest, hrow, ?_⟩
      unfold Deployment.ready
      cases hold : job.old with
      | none => exact congrArg some hpackages.symm
      | some old =>
        have hunder : ¬D.hasPrefix = true := by simpa [hold] using hfirst
        dsimp only
        rw [if_neg hunder]
        exact congrArg some hpackages.symm
  | removingOld job =>
    obtain ⟨old, hold, hok⟩ := Option.bind_eq_some_iff.mp hok
    obtain ⟨left, hleft, rfl⟩ := Option.map_eq_some_iff.mp hok
    obtain ⟨huntouched, hunder⟩ := h
    refine ⟨huntouched.manifest, huntouched.row, ?_⟩
    unfold Deployment.ready
    rw [hold]
    dsimp only
    rw [if_pos hunder, ← show packages = packagesBefore from huntouched.packages]
    exact hleft
  | installing job =>
    obtain rfl := Option.some.inj hok
    obtain ⟨hmanifest, hrow, hready⟩ := h
    exact ⟨hmanifest, hrow, Option.map_eq_some_iff.mpr ⟨_, hready, rfl⟩⟩
  | reinstalling job =>
    obtain rfl := Option.some.inj hok
    obtain ⟨hmanifest, hrow, hready, hunder, hold⟩ := h
    obtain ⟨old, hold⟩ := Option.ne_none_iff_exists'.mp hold
    exact fun _ _ => ⟨hmanifest, hrow, reinstall_ready hold hunder horderly hready⟩
  | snapshotting job =>
    obtain rfl := Option.some.inj hok
    exact ⟨h.1, h.2.1, h.2.2⟩
  | applying job saved =>
    obtain ⟨document, -, rfl⟩ := Option.map_eq_some_iff.mp hok
    exact ⟨h.2.1, h.2.2⟩
  | reloading job saved =>
    obtain rfl := Option.some.inj hok
    exact ⟨h.1, h.2⟩
  | recording job saved =>
    obtain rfl := Option.some.inj hok
    exact fun hsuccess => absurd rfl hsuccess
  | undoing job saved =>
    obtain ⟨left, hleft, rfl⟩ := Option.map_eq_some_iff.mp hok
    obtain ⟨hmanifest, hinstalled, hunder, hold⟩ := h
    refine ⟨hmanifest, hinstalled.row, ?_, hold⟩
    unfold Deployment.undone
    rw [if_pos hunder]
    exact Option.bind_eq_some_iff.mpr ⟨_, hinstalled.packages, hleft⟩
  | reverting job saved =>
    obtain rfl := Option.some.inj hok
    obtain ⟨hmanifest, hrow, hundone, hold⟩ := h
    obtain ⟨old, hold⟩ := Option.ne_none_iff_exists'.mp hold
    have hback := reinstall_undone hold horderly.1 horderly.2 hundone
    cases saved with
    | none => exact fun _ _ => ⟨hmanifest rfl, hrow, hback⟩
    | some saved =>
      refine ⟨hrow, ?_⟩
      rw [hold]
      exact hback
  | restoring job saved =>
    obtain ⟨document, hdocument, rfl⟩ := Option.map_eq_some_iff.mp hok
    obtain ⟨hsaved, hsealed⟩ := horderly
    exact ⟨(hsealed document hdocument).trans hsaved, h.1, h.2⟩
  | converging job =>
    obtain rfl := Option.some.inj hok
    obtain ⟨hmanifest, hrow, hpackages⟩ := h
    cases hold : job.old with
    | none =>
      rw [hold] at hpackages
      exact ⟨hmanifest, ⟨hrow, hpackages⟩, hold⟩
    | some old =>
      rw [hold] at hpackages
      exact fun _ _ => ⟨hmanifest, hrow, hpackages⟩
  | removing job =>
    obtain ⟨left, hleft, rfl⟩ := Option.map_eq_some_iff.mp hok
    obtain ⟨hmanifest, hinstalled, hold⟩ := h
    exact fun _ _ => ⟨hmanifest, hinstalled.row,
      remove_installed hold horderly hinstalled.packages hleft⟩
  | stripping spec =>
    obtain ⟨targets, hgrouped, hok⟩ := Option.bind_eq_some_iff.mp hok
    obtain ⟨targets', hgrouped', hforeign, hremovable⟩ := h
    obtain rfl := Option.some.inj (hgrouped'.symm.trans hgrouped)
    by_cases hempty : targets' = []
    · obtain rfl := Option.some.inj ((if_pos hempty).symm.trans hok)
      subst hempty
      exact ⟨[], hgrouped, hforeign, nofun, hremovable.1, hremovable.2⟩
    · obtain ⟨document, hdocument, rfl⟩ :=
        Option.map_eq_some_iff.mp ((if_neg hempty).symm.trans hok)
      obtain rfl := horderly targets' hgrouped document hdocument
      refine ⟨targets', hgrouped, ?_, clear_removeProvides _ _, hremovable.1, hremovable.2⟩
      exact (removeProvides_removeProvides _ _).trans hforeign
  | deregistering spec =>
    obtain rfl := Option.some.inj hok
    obtain ⟨targets, hgrouped, hforeign, hclear, hremovable⟩ := h
    exact ⟨targets, hgrouped, hforeign, hclear, hremovable.1, hremovable.2⟩
  | uninstalling spec =>
    obtain ⟨left, hleft, rfl⟩ := Option.map_eq_some_iff.mp hok
    obtain ⟨targets, hgrouped, hforeign, hclear, hrow, hremovable⟩ := h
    obtain ⟨left', hleft', hgone, -⟩ := remove_of_removable hremovable
    obtain rfl := Option.some.inj (hleft'.symm.trans hleft)
    exact ⟨targets, hgrouped, hforeign, hclear, hgone, hrow⟩
  | deleting spec =>
    obtain rfl := Option.some.inj hok
    refine h.imp fun targets _ hforeign ⟨hclear, hgone, _⟩ => ?_
    exact ⟨hforeign, .inl ⟨hclear, rfl, hgone⟩⟩

/-! ## Steps that raise or are cancelled -/

omit [PyNumber ν] in
/-- The unwind starts from what the job has installed. -/
theorem at_unwind {job : Job κ} {saved : Option (Manifest ν)}
    (hmanifest : saved = none → s.manifest = s.expected) (h : s.Installed D job) :
    s.At D (unwind D job saved) := by
  unfold unwind
  cases hold : job.old with
  | some old =>
    have hne : job.old ≠ none := by simp [hold]
    dsimp only
    split_ifs with hunder
    · exact ⟨hmanifest, h, hunder, hne⟩
    · refine ⟨hmanifest, h.row, ?_, hne⟩
      unfold Deployment.undone
      rw [if_neg hunder]
      exact h.packages
  | none =>
    cases saved with
    | none => exact ⟨hmanifest rfl, h, hold⟩
    | some saved =>
      refine ⟨h.row, ?_⟩
      rw [hold]
      exact h.packages

theorem manifest_halfDone (D : Deployment κ ν) {landed : Bool} (left : Packages)
    (h : landed = false ∨ s.manifestLanded D = none) :
    (s.halfDone D landed left).manifest = s.manifest := by
  show (if landed then (s.manifestLanded D).getD s.manifest else s.manifest) = s.manifest
  rcases h with rfl | hnone
  · rfl
  · rw [hnone]
    exact ite_self _

theorem row_halfDone (D : Deployment κ ν) {landed : Bool} (left : Packages)
    (h : landed = false ∨ s.rowLanded = s.row) : (s.halfDone D landed left).row = s.row := by
  show (if landed then s.rowLanded else s.row) = s.row
  rcases h with rfl | hsame
  · rfl
  · rw [hsame]
    exact ite_self _

/-- A document that a strip commits without returning is the stripped one. -/
theorem foreignKept_halfDone {landed : Bool} (left : Packages) {spec : PluginSpec κ}
    {targets : List FieldTargets} (hphase : s.phase = .stripping spec)
    (hgrouped : groupedTargets D.bindings spec = some targets) (hseals : s.SealsStripped D spec)
    (h : s.ForeignKept targets) :
    removeProvides targets (s.halfDone D landed left).manifest =
      removeProvides targets s.expected := by
  show removeProvides targets
    (if landed then (s.manifestLanded D).getD s.manifest else s.manifest) = _
  have hlanded : s.manifestLanded D = D.compose (removeProvides targets s.manifest) s.manifest := by
    unfold manifestLanded
    rw [hphase]
    dsimp only
    rw [hgrouped]
    rfl
  split_ifs
  · rw [hlanded]
    cases hcompose : D.compose (removeProvides targets s.manifest) s.manifest with
    | none => exact h
    | some document =>
      rw [hseals targets hgrouped document hcompose]
      exact (removeProvides_removeProvides _ _).trans h
  · exact h

theorem At.fail {landed : Bool} {left : Packages} (h : s.At D s.phase)
    (horderly : s.FailOrderly D landed left) (hrest : s.phase.atRest = false) :
    ({ s.halfDone D landed left with phase := afterFail D s.phase } : World κ ν).At D
      (afterFail D s.phase) := by
  obtain ⟨manifest, row, packages, phase, expected, rowBefore, packagesBefore⟩ := s
  cases phase with
  | idle => cases hrest
  | refused => cases hrest
  | ended job result => cases hrest
  | uninstallEnded spec result => cases hrest
  | resolving job =>
    exact fun _ _ => ⟨(manifest_halfDone D left (.inr rfl)).trans h.manifest,
      (row_halfDone D left (.inr rfl)).trans h.row, h.packages⟩
  | removingOld job =>
    obtain ⟨huntouched, -⟩ := h
    have hleft : left = packages := horderly
    exact fun _ _ => ⟨(manifest_halfDone D left (.inr rfl)).trans huntouched.manifest,
      (row_halfDone D left (.inr rfl)).trans huntouched.row, hleft.trans huntouched.packages⟩
  | installing job =>
    obtain ⟨hmanifest, hrow, hready⟩ := h
    have hleft : left = packages := horderly
    subst hleft
    show At D _ (if D.hasPrefix && job.old.isSome then .reinstalling job else .ended job .failed)
    split_ifs with hfirst
    · obtain ⟨hunder, hold⟩ := (Bool.and_eq_true _ _).mp hfirst
      exact ⟨(manifest_halfDone D left (.inr rfl)).trans hmanifest,
        (row_halfDone D left (.inr rfl)).trans hrow, hready, hunder,
        Option.isSome_iff_ne_none.mp hold⟩
    · refine fun _ _ => ⟨(manifest_halfDone D left (.inr rfl)).trans hmanifest,
        (row_halfDone D left (.inr rfl)).trans hrow, ?_⟩
      have hbefore : D.ready job packagesBefore = some packagesBefore := by
        unfold Deployment.ready
        cases hold : job.old with
        | none => rfl
        | some old =>
          have hunder : ¬D.hasPrefix = true := by simpa [hold] using hfirst
          exact if_neg hunder
      exact Option.some.inj (hready.symm.trans hbefore)
  | reinstalling job => exact fun _ hunwind => absurd rfl hunwind
  | snapshotting job =>
    exact fun _ _ => ⟨(manifest_halfDone D left (.inr rfl)).trans h.1,
      (row_halfDone D left (.inr rfl)).trans h.2.row, horderly⟩
  | applying job saved =>
    exact at_unwind (fun _ => (manifest_halfDone D left (.inl horderly)).trans h.1)
      ⟨(row_halfDone D left (.inr rfl)).trans h.2.row, h.2.packages⟩
  | reloading job saved =>
    exact at_unwind nofun ⟨(row_halfDone D left (.inr rfl)).trans h.row, h.packages⟩
  | recording job saved =>
    exact at_unwind nofun ⟨(row_halfDone D left (.inl horderly)).trans h.row, h.packages⟩
  | undoing job saved => exact fun _ hunwind => absurd rfl hunwind
  | reverting job saved => exact fun _ hunwind => absurd rfl hunwind
  | restoring job saved => exact fun _ hunwind => absurd rfl hunwind
  | converging job => exact fun _ hunwind => absurd rfl hunwind
  | removing job => exact fun _ hunwind => absurd rfl hunwind
  | stripping spec =>
    refine h.imp fun targets hgrouped hforeign ⟨hrow, hremovable⟩ => ?_
    refine ⟨foreignKept_halfDone left rfl hgrouped horderly hforeign, .inr ⟨nofun, ?_, hremovable⟩⟩
    rwa [row_halfDone D left (.inr rfl)]
  | deregistering spec =>
    refine h.imp fun targets _ hforeign ⟨_, hrow, hremovable⟩ => ?_
    refine ⟨?_, .inr ⟨nofun, ?_, hremovable⟩⟩
    · unfold ForeignKept
      rwa [manifest_halfDone D left (.inr rfl)]
    · rwa [row_halfDone D left (.inr rfl)]
  | uninstalling spec =>
    refine h.imp fun targets _ hforeign ⟨_, hrow, _⟩ => ?_
    refine ⟨?_, .inr ⟨nofun, ?_, horderly⟩⟩
    · unfold ForeignKept
      rwa [manifest_halfDone D left (.inr rfl)]
    · rwa [row_halfDone D left (.inr rfl)]
  | deleting spec =>
    refine h.imp fun targets _ hforeign ⟨hclear, hgone, hrow⟩ => ?_
    refine ⟨?_, ?_⟩
    · unfold ForeignKept
      rwa [manifest_halfDone D left (.inr rfl)]
    · cases landed with
      | true => exact .inl ⟨hclear, rfl, hgone⟩
      | false => exact .inr ⟨nofun, hrow, horderly.resolve_left nofun⟩

/-- A job that is cancelled where the stores are as they were. -/
theorem untouched_cancel {landed : Bool} {left : Packages} {phase : Phase κ ν}
    (hrow : s.row = s.rowBefore)
    (h : s.manifest = s.expected ∧ s.packagesLeft left = s.packagesBefore ∧ landed = false) :
    ({ s.halfDone D landed left with phase } : World κ ν).Untouched := by
  obtain ⟨hmanifest, hpackages, hlanded⟩ := h
  exact ⟨(manifest_halfDone D left (.inl hlanded)).trans hmanifest,
    (row_halfDone D left (.inl hlanded)).trans hrow, hpackages⟩

theorem At.cancel {landed : Bool} {left : Packages} (h : s.At D s.phase)
    (horderly : s.CancelOrderly D landed left) (hawaits : s.phase.awaits D.hasPrefix = true) :
    ({ s.halfDone D landed left with phase := afterCancel s.phase } : World κ ν).At D
      (afterCancel s.phase) := by
  obtain ⟨manifest, row, packages, phase, expected, rowBefore, packagesBefore⟩ := s
  cases phase with
  | idle => cases hawaits
  | refused => cases hawaits
  | removingOld job => cases hawaits
  | snapshotting job => cases hawaits
  | applying job saved => cases hawaits
  | undoing job saved => cases hawaits
  | restoring job saved => cases hawaits
  | stripping spec => cases hawaits
  | ended job result => cases hawaits
  | uninstallEnded spec result => cases hawaits
  | resolving job => exact fun _ _ => untouched_cancel h.row horderly
  | installing job => exact fun _ _ => untouched_cancel h.2.1 horderly
  | reinstalling job => exact fun _ _ => untouched_cancel h.2.1 horderly
  | reloading job saved => exact fun _ _ => untouched_cancel h.row horderly
  | recording job saved => exact fun _ _ => untouched_cancel h.row horderly
  | reverting job saved => exact fun _ _ => untouched_cancel h.2.1 horderly
  | converging job => exact fun _ _ => untouched_cancel h.2.row horderly
  | removing job => exact fun _ _ => untouched_cancel h.2.1.row horderly
  | deregistering spec =>
    refine h.imp fun targets _ hforeign ⟨_, hrow, hremovable⟩ => ?_
    refine ⟨?_, .inr ⟨nofun, ?_, hremovable⟩⟩
    · unfold ForeignKept
      rwa [manifest_halfDone D left (.inr rfl)]
    · rwa [row_halfDone D left (.inr rfl)]
  | uninstalling spec =>
    refine h.imp fun targets _ hforeign ⟨_, hrow, _⟩ => ?_
    refine ⟨?_, .inr ⟨nofun, ?_, ?_⟩⟩
    · unfold ForeignKept
      rwa [manifest_halfDone D left (.inr rfl)]
    · rwa [row_halfDone D left (.inr rfl)]
    · -- Only the environment's removal is awaited.
      unfold Deployment.removable
      rw [show (!D.hasPrefix) = true from hawaits]
      rfl
  | deleting spec =>
    refine h.imp fun targets _ hforeign ⟨hclear, hgone, hrow⟩ => ?_
    refine ⟨?_, ?_⟩
    · unfold ForeignKept
      rwa [manifest_halfDone D left (.inr rfl)]
    · cases landed with
      | true => exact .inl ⟨hclear, rfl, hgone⟩
      | false => exact .inr ⟨nofun, hrow, horderly.resolve_left nofun⟩

/-! ## Runs -/

theorem At.step {a : Act κ ν} (h : s.At D s.phase) (horderly : s.Orderly D a)
    (hstep : (installer D).step s a s') : s'.At D s'.phase := by
  obtain ⟨hassumed, hstep⟩ := hstep
  cases a with
  | edit f =>
    obtain rfl := Option.some.inj hstep
    exact h.edit hassumed
  | install spec record =>
    obtain ⟨-, hstep⟩ := Option.ite_none_right_eq_some.mp hstep
    obtain rfl := Option.some.inj hstep
    show At D _ (if s.row.isSome then .refused else .resolving ⟨spec, record, none⟩)
    split_ifs
    · exact untouched_begin s _
    · exact untouched_begin s _
  | update spec record =>
    obtain ⟨-, hstep⟩ := Option.ite_none_right_eq_some.mp hstep
    obtain rfl := Option.some.inj hstep
    dsimp only [begin]
    split
    · exact untouched_begin s _
    · split
      · exact untouched_begin s _
      · exact untouched_begin s _
  | uninstall =>
    obtain ⟨-, hstep⟩ := Option.ite_none_right_eq_some.mp hstep
    obtain rfl := Option.some.inj hstep
    exact at_uninstall horderly rfl
  | ok => exact h.ok horderly hstep
  | fail landed left =>
    obtain ⟨hrest, hstep⟩ := Option.ite_none_left_eq_some.mp hstep
    obtain rfl := Option.some.inj hstep
    exact h.fail horderly (Bool.not_eq_true _ ▸ hrest)
  | cancel landed left =>
    obtain ⟨hawaits, hstep⟩ := Option.ite_none_right_eq_some.mp hstep
    obtain rfl := Option.some.inj hstep
    exact h.cancel horderly hawaits

theorem at_of_reachable (h : ((installer D).when fun s a => s.Orderly D a).Reachable s) :
    s.At D s.phase := by
  refine h.invariant (p := fun s => s.At D s.phase) ?_ ?_
  · intro s hinit
    rw [show s.phase = .idle from hinit]
    trivial
  · intro s a s' hs hstep
    exact hs.step hstep.1 hstep.2

/-! ## Jobs and uninstalls -/

variable (D : Deployment κ ν) (s : World κ ν)

/-- A job that has ended, but in neither success nor an unwind error, left the stores untouched. -/
def AllOrNothing : Prop :=
  (s.phase = .refused → s.Untouched) ∧ ∀ job result, s.phase = .ended job result →
    result ≠ .succeeded → result ≠ .unwindError → s.Untouched

/-- How many steps an uninstall has before it, at most. -/
def remaining : Phase κ ν → ℕ
  | .stripping _ => 4
  | .deregistering _ => 3
  | .uninstalling _ => 2
  | .deleting _ => 1
  | _ => 0

/-- The runs in which no step fails. -/
def rerun : System (World κ ν) (Act κ ν) :=
  ((installer D).when fun s a => s.Orderly D a).when fun _ a => a = .ok ∨ ∃ f, a = .edit f

/-- Run again, an uninstall whose steps do not fail goes on until no reference, no row and no
package is left, unless the pipeline refuses the stripped document; and the foreign entries are
kept throughout. -/
def Reruns (spec : PluginSpec κ) (targets : List FieldTargets) : Prop :=
  ∃ s₁, s.step D .uninstall = some s₁ ∧ ∀ s₂, (rerun D).Run s₁ s₂ → s₂.ForeignKept targets ∧
    ((s₂.phase = .uninstallEnded spec .succeeded ∧ s₂.Removed D targets spec) ∨
      (∃ s₃, s₂.ok D = some s₃ ∧ remaining s₃.phase < remaining s₂.phase) ∨
      s₂.phase = .stripping spec ∧
        D.compose (removeProvides targets s₂.manifest) s₂.manifest = none)

/-- An uninstall that has ended kept the foreign entries; nothing of the plugin is left, or it can
be run again. -/
def Converges : Prop :=
  ∀ spec result, s.phase = .uninstallEnded spec result → ∃ targets,
    groupedTargets D.bindings spec = some targets ∧ s.ForeignKept targets ∧
      (s.Removed D targets spec ∨ result ≠ .succeeded ∧ s.Reruns D spec targets)

variable {D s}

/-- The uninstall has not failed so far. -/
def OnTrack (spec : PluginSpec κ) : Phase κ ν → Prop
  | .stripping spec' => spec' = spec
  | .deregistering spec' => spec' = spec
  | .uninstalling spec' => spec' = spec
  | .deleting spec' => spec' = spec
  | .uninstallEnded spec' result => spec' = spec ∧ result = .succeeded
  | _ => False

theorem OnTrack.ok {spec : PluginSpec κ} (h : OnTrack spec s.phase) (hok : s.ok D = some s') :
    OnTrack spec s'.phase ∧ remaining s'.phase < remaining s.phase := by
  obtain ⟨manifest, row, packages, phase, expected, rowBefore, packagesBefore⟩ := s
  cases phase with
  | stripping spec' =>
    obtain ⟨targets, -, hok⟩ := Option.bind_eq_some_iff.mp hok
    dsimp only at hok
    split_ifs at hok
    · obtain rfl := Option.some.inj hok
      exact ⟨h, show 2 < 4 by decide⟩
    · obtain ⟨document, -, rfl⟩ := Option.map_eq_some_iff.mp hok
      exact ⟨h, show 3 < 4 by decide⟩
  | deregistering spec' =>
    obtain rfl := Option.some.inj hok
    exact ⟨h, Nat.lt_succ_self _⟩
  | uninstalling spec' =>
    obtain ⟨left, -, rfl⟩ := Option.map_eq_some_iff.mp hok
    exact ⟨h, Nat.lt_succ_self _⟩
  | deleting spec' =>
    obtain rfl := Option.some.inj hok
    exact ⟨⟨h, rfl⟩, Nat.lt_succ_self _⟩
  | uninstallEnded spec' result => cases hok
  | _ => exact h.elim

/-- An uninstall on its track ends, or its next step returns. -/
theorem OnTrack.goesOn {spec : PluginSpec κ} {targets : List FieldTargets}
    (h : OnTrack spec s.phase) (hat : s.At D s.phase)
    (hgrouped : groupedTargets D.bindings spec = some targets) :
    s.ForeignKept targets ∧
      ((s.phase = .uninstallEnded spec .succeeded ∧ s.Removed D targets spec) ∨
        (∃ s₃, s.ok D = some s₃ ∧ remaining s₃.phase < remaining s.phase) ∨
        s.phase = .stripping spec ∧
          D.compose (removeProvides targets s.manifest) s.manifest = none) := by
  have hnext (hok : (s.ok D).isSome = true) :
      ∃ s₃, s.ok D = some s₃ ∧ remaining s₃.phase < remaining s.phase := by
    obtain ⟨s₃, hok⟩ := Option.isSome_iff_exists.mp hok
    exact ⟨s₃, hok, (h.ok hok).2⟩
  obtain ⟨manifest, row, packages, phase, expected, rowBefore, packagesBefore⟩ := s
  cases phase with
  | stripping spec' =>
    obtain rfl : spec' = spec := h
    obtain ⟨targets', hgrouped', hforeign, hremovable⟩ := hat
    obtain rfl := Option.some.inj (hgrouped'.symm.trans hgrouped)
    refine ⟨hforeign, .inr ?_⟩
    cases hcompose : D.compose (removeProvides targets' manifest) manifest with
    | none => exact .inr ⟨rfl, rfl⟩
    | some document =>
      refine .inl (hnext ?_)
      show ((groupedTargets D.bindings spec').bind _).isSome = true
      rw [hgrouped]
      dsimp only [Option.bind_some]
      split_ifs
      · rfl
      · rw [hcompose]
        rfl
  | deregistering spec' =>
    obtain rfl : spec' = spec := h
    obtain ⟨targets', hgrouped', hforeign, -⟩ := hat
    obtain rfl := Option.some.inj (hgrouped'.symm.trans hgrouped)
    exact ⟨hforeign, .inr (.inl (hnext rfl))⟩
  | uninstalling spec' =>
    obtain rfl : spec' = spec := h
    obtain ⟨targets', hgrouped', hforeign, -, -, hremovable⟩ := hat
    obtain rfl := Option.some.inj (hgrouped'.symm.trans hgrouped)
    obtain ⟨left, hleft, -⟩ := remove_of_removable hremovable
    exact ⟨hforeign, .inr (.inl (hnext (Option.isSome_map.trans (hleft ▸ rfl))))⟩
  | deleting spec' =>
    obtain rfl : spec' = spec := h
    obtain ⟨targets', hgrouped', hforeign, -⟩ := hat
    obtain rfl := Option.some.inj (hgrouped'.symm.trans hgrouped)
    exact ⟨hforeign, .inr (.inl (hnext rfl))⟩
  | uninstallEnded spec' result =>
    obtain ⟨rfl, rfl⟩ : spec' = spec ∧ result = .succeeded := h
    obtain ⟨targets', hgrouped', hforeign, hremoved⟩ := hat
    obtain rfl := Option.some.inj (hgrouped'.symm.trans hgrouped)
    exact ⟨hforeign, .inl ⟨rfl, hremoved.resolve_right fun h => h.1 rfl⟩⟩
  | _ => exact h.elim

/-- An uninstall that failed with its row left can be run again. -/
theorem reruns_of_removable {spec : PluginSpec κ} {targets : List FieldTargets}
    (hrest : s.phase.atRest = true) (hgrouped : groupedTargets D.bindings spec = some targets)
    (h : s.Removable D spec) : s.Reruns D spec targets := by
  obtain ⟨⟨row, hrow, hspec⟩, hpackages⟩ := h
  have hread : s.row.bind (·.spec) = some spec := by
    rw [hrow]
    exact hspec
  refine ⟨s.begin (.stripping spec), ?_, fun s₂ hrun => ?_⟩
  · show (if s.phase.atRest then _ else none) = _
    rw [if_pos hrest, hread]
  · have hfirst : (s.begin (.stripping spec)).At D (.stripping spec) :=
      ⟨targets, hgrouped, rfl, ⟨row, hrow, hspec⟩, hpackages⟩
    have htrack : OnTrack spec (s.begin (.stripping spec)).phase := rfl
    suffices s₂.At D s₂.phase ∧ OnTrack spec s₂.phase from this.2.goesOn this.1 hgrouped
    refine hrun.invariant (p := fun s => s.At D s.phase ∧ OnTrack spec s.phase) ?_
      ⟨hfirst, htrack⟩
    intro s a s' ⟨hat, htrack⟩ ⟨ha, horderly, hstep⟩
    refine ⟨hat.step horderly hstep, ?_⟩
    rcases ha with rfl | ⟨f, rfl⟩
    · exact (htrack.ok hstep.2).1
    · obtain rfl := Option.some.inj hstep.2
      exact htrack

/-- In a run whose steps all meet the condition, an install or an update is all or nothing, and an
uninstall converges. -/
theorem allOrNothing_and_converges
    (h : ((installer D).when fun s a => s.Orderly D a).Reachable s) :
    s.AllOrNothing ∧ s.Converges D := by
  have hat := at_of_reachable h
  refine ⟨⟨fun hphase => ?_, fun job result hphase => ?_⟩, fun spec result hphase => ?_⟩
  · rw [hphase] at hat
    exact hat
  · rw [hphase] at hat
    exact hat
  · rw [hphase] at hat
    obtain ⟨targets, hgrouped, hforeign, hleft⟩ := hat
    refine ⟨targets, hgrouped, hforeign, hleft.imp_right fun ⟨hresult, hremovable⟩ => ?_⟩
    exact ⟨hresult, reruns_of_removable (by rw [hphase]; rfl) hgrouped hremovable⟩

/-! ## An install that cannot be recorded -/

/-- A plugin of one tool module. -/
def weather : PluginSpec Unit := ⟨"weather", [⟨(), "weather.tools"⟩]⟩

def weatherRecord : InstallRecord Unit := ⟨"1.0", "pypi", none, none, some weather⟩

/-- Every item is a tool; the manifest has no markers. -/
def toolDeployment : Deployment Unit ℤ :=
  ⟨false, fun _ => some ⟨.configRow, some "tools"⟩, id, fun _ => true⟩

/-- A worker without plugins. -/
def bareWorld : World Unit ℤ where
  manifest := [("tools", .arr [])]
  row := none
  packages := ⟨∅, ∅⟩
  expected := []
  rowBefore := none
  packagesBefore := ⟨∅, ∅⟩

/-- A channel that another writer adds. -/
def addChannel (document : Manifest ℤ) : Manifest ℤ :=
  setField document "channel_modules" (.arr [.str "mail"])

/-- An install whose attribution write fails, with what happens in between. -/
def unrecordedActs (between : List (Act Unit ℤ)) : List (Act Unit ℤ) :=
  [.install weather weatherRecord, .ok, .ok, .ok, .ok] ++ between ++
    [.ok, .fail false ⟨∅, ∅⟩, .ok, .ok, .ok]

/-- Any edit may come while no uninstall runs. -/
theorem step_of_job {D : Deployment Unit ℤ} {s s' : World Unit ℤ} {a : Act Unit ℤ}
    (h : System.guarded (World.step D) (fun s _ => s.phase.uninstalls.isNone) s a = some s') :
    (installer D).step s a s' := by
  obtain ⟨hguard, hstep⟩ := System.step_of_guarded h
  refine ⟨?_, hstep⟩
  cases a with
  | edit f =>
    intro spec hspec
    rw [Option.isNone_iff_eq_none.mp hguard] at hspec
    cases hspec
  | _ => trivial

/-- The channel that was added after the snapshot is gone with the plugin. -/
theorem edit_lost : ∃ s, (installer toolDeployment).Reachable s ∧ ¬s.AllOrNothing := by
  have hrun : ((unrecordedActs [.edit addChannel]).foldlM
      (System.guarded (World.step toolDeployment) fun s _ => s.phase.uninstalls.isNone)
      bareWorld).any (fun s => match s.phase with
        | .ended _ result => decide (result = .failed ∧ s.manifest ≠ s.expected)
        | _ => false) = true := by
    decide +kernel
  obtain ⟨s, hs, hp⟩ := System.Reachable.of_foldlM (S := installer toolDeployment)
    (fun _ _ _ h => step_of_job h) (s := bareWorld) rfl hrun
  refine ⟨s, hs, fun hall => ?_⟩
  split at hp
  · next job result hphase =>
    obtain ⟨rfl, hlost⟩ := of_decide_eq_true hp
    exact hlost (hall.2 job .failed hphase nofun nofun).manifest
  · cases hp

/-- Without the edit, the failed install leaves all as it was. -/
theorem unrecorded_untouched : ∃ s,
    ((installer toolDeployment).when fun s a => s.Orderly toolDeployment a).Reachable s ∧
      (∃ job, s.phase = .ended job .failed) ∧ s.AllOrNothing ∧ s.Converges toolDeployment := by
  have hstart : ((installer toolDeployment).when
      fun s a => s.Orderly toolDeployment a).Reachable bareWorld := .of_init rfl
  have hrecording := hstart.take (.install weather weatherRecord) ⟨trivial, trivial, rfl⟩
    |>.take .ok ⟨trivial, trivial, rfl⟩ |>.take .ok ⟨trivial, trivial, rfl⟩
    |>.take .ok ⟨trivial, trivial, rfl⟩ |>.take .ok ⟨trivial, trivial, rfl⟩
    |>.take .ok ⟨trivial, trivial, rfl⟩
  have hremoving := hrecording.take (.fail false ⟨∅, ∅⟩) ⟨rfl, trivial, rfl⟩
    |>.take .ok ⟨⟨rfl, by decide +kernel⟩, trivial, rfl⟩ |>.take .ok ⟨trivial, trivial, rfl⟩
  have hlacks : toolDeployment.Lacks ⟨∅, ∅⟩ weather.package := by decide +kernel
  have hended := hremoving.take .ok ⟨hlacks, trivial, rfl⟩
  exact ⟨_, hended, ⟨_, rfl⟩, allOrNothing_and_converges hended⟩

end World

end TaiSkeleton.Marketplace
