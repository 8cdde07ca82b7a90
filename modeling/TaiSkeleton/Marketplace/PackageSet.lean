import TaiSkeleton.Marketplace.Installer

/-!
# What the package steps undo

The removal of an installed package leaves the package set before the install where the package was
not there. The old pin that an update installs again leaves the one before where it was what the
row says, and where the new package replaced it.
-/

namespace TaiSkeleton.Marketplace

open Lib Config

variable {κ ν : Type}

/-! ## Maps -/

section

variable {β : Type} {m : Finmap fun _ : String => β} {x : String} {v : β}

theorem insert_of_lookup (h : m.lookup x = some v) : m.insert x v = m := by
  refine Finmap.ext_lookup fun y => ?_
  by_cases hy : y = x
  · subst hy
    rw [Finmap.lookup_insert, h]
  · rw [Finmap.lookup_insert_of_ne _ hy]

theorem insert_erase_of_lookup (h : m.lookup x = some v) : (m.erase x).insert x v = m := by
  refine Finmap.ext_lookup fun y => ?_
  by_cases hy : y = x
  · subst hy
    rw [Finmap.lookup_insert, h]
  · rw [Finmap.lookup_insert_of_ne _ hy, Finmap.lookup_erase_ne hy]

theorem erase_insert_of_notMem (h : x ∉ m) : (m.insert x v).erase x = m := by
  refine Finmap.ext_lookup fun y => ?_
  by_cases hy : y = x
  · subst hy
    rw [Finmap.lookup_erase, Finmap.lookup_eq_none.mpr h]
  · rw [Finmap.lookup_erase_ne hy, Finmap.lookup_insert_of_ne _ hy]

end

/-! ## Jobs -/

namespace Deployment

variable (D : Deployment κ ν) (job : Job κ) (before : Packages)

/-- The package set that a job installs into. -/
def ready : Option Packages :=
  match job.old with
  | some (oldSpec, _) =>
    if D.hasPrefix then before.uninstallFromPrefix oldSpec.package else some before
  | none => some before

/-- The package set once the job has installed. -/
def installed : Option Packages :=
  (D.ready job before).map
    (·.pipInstall D.hasPrefix job.spec.package job.record.version)

/-- The package set that the unwind of an update installs the old pin into. -/
def undone : Option Packages :=
  if D.hasPrefix then (D.installed job before).bind (·.uninstallFromPrefix job.spec.package)
  else D.installed job before

/-- The package was not there. -/
def Lacks (package : String) : Prop :=
  if D.hasPrefix then package ∉ before.inPrefix else package ∉ before.env

/-- The old package was there as its row says, and under a prefix the environment does not provide
the very version. -/
def Pinned : Prop :=
  ∀ old ∈ job.old,
    if D.hasPrefix then
      before.inPrefix.lookup old.1.package = some [⟨old.2.version, .whole⟩] ∧
        before.env.lookup old.1.package ≠ some old.2.version
    else before.env.lookup old.1.package = some old.2.version

/-- The new package has the name of the old one, or it adds nothing that was not there. -/
def Replaces : Prop :=
  ∀ old ∈ job.old, job.spec.package = old.1.package ∨
    if D.hasPrefix then job.spec.package ∉ before.inPrefix
    else before.env.lookup job.spec.package = some job.record.version

/-- `_remove_package` can remove the package, and leaves none of it. -/
def removable (packages : Packages) (package : String) : Bool :=
  !D.hasPrefix ||
    match packages.dists package with
    | [] => decide (package ∈ packages.env)
    | [dist] => dist.files != .unrecorded
    | _ => false

/-- The package is gone from where it is installed. -/
def Gone (packages : Packages) (package : String) : Prop :=
  if D.hasPrefix then packages.dists package = [] else package ∉ packages.env

instance (package : String) : Decidable (D.Lacks before package) :=
  inferInstanceAs (Decidable (if D.hasPrefix then package ∉ before.inPrefix
    else package ∉ before.env))

instance : Decidable (D.Pinned job before) :=
  inferInstanceAs (Decidable (∀ old ∈ job.old,
    if D.hasPrefix then
      before.inPrefix.lookup old.1.package = some [⟨old.2.version, .whole⟩] ∧
        before.env.lookup old.1.package ≠ some old.2.version
    else before.env.lookup old.1.package = some old.2.version))

instance : Decidable (D.Replaces job before) :=
  inferInstanceAs (Decidable (∀ old ∈ job.old, job.spec.package = old.1.package ∨
    if D.hasPrefix then job.spec.package ∉ before.inPrefix
    else before.env.lookup job.spec.package = some job.record.version))

end Deployment

variable {D : Deployment κ ν} {job : Job κ} {before packages packages' : Packages}
  {package version : String}

theorem dists_of_notMem (h : package ∉ before.inPrefix) : before.dists package = [] := by
  unfold Packages.dists
  rw [Finmap.lookup_eq_none.mpr h]
  rfl

/-- A package that a prefix had none of, removed after it was installed. -/
theorem uninstallFromPrefix_pipInstall (h : package ∉ before.inPrefix)
    (hremove : (before.pipInstall true package version).uninstallFromPrefix package =
      some packages) : packages = before := by
  unfold Packages.pipInstall at hremove
  rw [if_pos rfl] at hremove
  split_ifs at hremove with henv
  · unfold Packages.uninstallFromPrefix at hremove
    rw [dists_of_notMem h] at hremove
    cases hremove
  · rw [dists_of_notMem h] at hremove
    unfold Packages.uninstallFromPrefix Packages.dists at hremove
    simp only [Finmap.lookup_insert, Option.getD_some, List.filter_nil, reduceCtorEq, if_false,
      if_true, Option.some.injEq] at hremove
    rw [← hremove, erase_insert_of_notMem h]

/-- The unwind of an install removes what the install added. -/
theorem remove_installed (hold : job.old = none) (hlacks : D.Lacks before job.spec.package)
    (hinstalled : D.installed job before = some packages)
    (hremove : packages.remove D.hasPrefix job.spec.package = some packages') :
    packages' = before := by
  unfold Deployment.installed Deployment.ready at hinstalled
  rw [hold] at hinstalled
  obtain rfl := Option.some.inj hinstalled
  unfold Deployment.Lacks at hlacks
  unfold Packages.remove at hremove
  cases hunder : D.hasPrefix with
  | true =>
    simp only [hunder, if_true] at hlacks hremove
    split_ifs at hremove with hdists henv
    · exact uninstallFromPrefix_pipInstall hlacks hremove
    · obtain rfl := Option.some.inj hremove
      -- Nothing is under the prefix, so nothing was added to it.
      unfold Packages.pipInstall at hdists ⊢
      rw [if_pos rfl] at hdists ⊢
      split_ifs at hdists ⊢
      · rfl
      · refine absurd ?_ hdists
        unfold Packages.dists
        rw [Finmap.lookup_insert]
        exact List.cons_ne_nil _ _
  | false =>
    simp only [hunder, Bool.false_eq_true, if_false] at hlacks hremove
    obtain rfl := Option.some.inj hremove
    unfold Packages.pipUninstall Packages.pipInstall
    simp only [Bool.false_eq_true, if_false]
    rw [erase_insert_of_notMem hlacks]

/-- What the removal of the old pin under a prefix leaves. -/
theorem ready_of_pinned {old : PluginSpec κ × InstallRecord κ} (hold : job.old = some old)
    (hunder : D.hasPrefix = true) (hpinned : D.Pinned job before)
    (hready : D.ready job before = some packages) :
    packages = { before with inPrefix := before.inPrefix.erase old.1.package } := by
  have hpin := hpinned old hold
  rw [if_pos hunder] at hpin
  unfold Deployment.ready at hready
  rw [hold] at hready
  simp only [hunder, if_true] at hready
  unfold Packages.uninstallFromPrefix Packages.dists at hready
  simp only [hpin.1, Option.getD_some, reduceCtorEq, if_false, if_true,
    Option.some.injEq] at hready
  exact hready.symm

/-- The old pin is back under the prefix. -/
theorem reinstall_ready {old : PluginSpec κ × InstallRecord κ} (hold : job.old = some old)
    (hunder : D.hasPrefix = true) (hpinned : D.Pinned job before)
    (hready : D.ready job before = some packages) : D.reinstall job packages = before := by
  have hpin := hpinned old hold
  rw [if_pos hunder] at hpin
  obtain ⟨hdist, henv⟩ := hpin
  have hnone : ({ before with inPrefix := before.inPrefix.erase old.1.package } : Packages).dists
      old.1.package = [] :=
    dists_of_notMem (Finmap.lookup_eq_none.mp (Finmap.lookup_erase _ _))
  rw [ready_of_pinned hold hunder hpinned hready]
  unfold Deployment.reinstall
  rw [hold]
  simp only [Packages.pipInstall, hunder, if_true, henv, if_false]
  rw [hnone, List.filter_nil, insert_erase_of_lookup hdist]

/-- The unwind of an update leaves the package set before it. -/
theorem reinstall_undone {old : PluginSpec κ × InstallRecord κ} (hold : job.old = some old)
    (hpinned : D.Pinned job before) (hreplaces : D.Replaces job before)
    (hundone : D.undone job before = some packages) : D.reinstall job packages = before := by
  have hreplace := hreplaces old hold
  cases hunder : D.hasPrefix with
  | true =>
    unfold Deployment.undone at hundone
    rw [if_pos hunder] at hundone
    obtain ⟨installed, hinstalled, hremoved⟩ := Option.bind_eq_some_iff.mp hundone
    obtain ⟨ready, hready, rfl⟩ := Option.map_eq_some_iff.mp hinstalled
    have hlacks : job.spec.package ∉ ready.inPrefix := by
      rw [ready_of_pinned hold hunder hpinned hready]
      rw [if_pos hunder] at hreplace
      rw [← Finmap.lookup_eq_none]
      by_cases hsame : job.spec.package = old.1.package
      · rw [hsame, Finmap.lookup_erase]
      · rw [Finmap.lookup_erase_ne hsame]
        exact Finmap.lookup_eq_none.mpr (hreplace.resolve_left hsame)
    rw [hunder] at hremoved
    rw [uninstallFromPrefix_pipInstall hlacks hremoved]
    exact reinstall_ready hold hunder hpinned hready
  | false =>
    have hpin := hpinned old hold
    simp only [hunder, Bool.false_eq_true, if_false] at hpin hreplace
    unfold Deployment.undone Deployment.installed Deployment.ready at hundone
    rw [hold] at hundone
    simp only [hunder, Bool.false_eq_true, if_false] at hundone
    obtain rfl := Option.some.inj hundone
    unfold Deployment.reinstall
    rw [hold]
    simp only [Packages.pipInstall, hunder, Bool.false_eq_true, if_false]
    rcases hreplace with hsame | hthere
    · rw [hsame, Finmap.insert_insert, insert_of_lookup hpin]
    · rw [insert_of_lookup hthere, insert_of_lookup hpin]

/-- A removable package is removed. -/
theorem remove_of_removable (h : D.removable packages package = true) :
    ∃ packages', packages.remove D.hasPrefix package = some packages' ∧
      D.Gone packages' package ∧ packages'.env.lookup package =
        if D.hasPrefix then packages.env.lookup package else none := by
  unfold Packages.remove Deployment.Gone
  cases hunder : D.hasPrefix with
  | false =>
    refine ⟨packages.pipUninstall package, rfl, ?_, ?_⟩
    · exact Finmap.lookup_eq_none.mp (Finmap.lookup_erase _ _)
    · exact Finmap.lookup_erase _ _
  | true =>
    simp only [Deployment.removable, hunder, Bool.not_true, Bool.false_or] at h
    simp only [if_true]
    cases hdists : packages.dists package with
    | nil =>
      rw [hdists] at h
      have henv : package ∈ packages.env := of_decide_eq_true h
      exact ⟨packages, by rw [if_neg (by simp), if_pos henv], hdists, rfl⟩
    | cons dist rest =>
      rw [hdists] at h
      cases rest with
      | cons _ _ => cases h
      | nil =>
        have hfiles : dist.files ≠ .unrecorded := bne_iff_ne.mp h
        refine ⟨{ packages with inPrefix := packages.inPrefix.erase package }, ?_, ?_, rfl⟩
        · rw [if_pos (by simp)]
          unfold Packages.uninstallFromPrefix
          simp only [hdists, hfiles, if_false, if_true]
        · unfold Packages.dists
          rw [Finmap.lookup_erase]
          rfl

end TaiSkeleton.Marketplace
