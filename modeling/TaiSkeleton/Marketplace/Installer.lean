import Mathlib.Data.Finmap
import TaiSkeleton.Lib.Run
import TaiSkeleton.Marketplace.ManifestPatch

/-!
# The installer

An install, an update or an uninstall of a plugin goes through the package set, the manifest and
the attribution row, one step after another; a step returns, raises or is cancelled while it is
awaited. The other writers of the manifest commit between any two steps.
-/

namespace TaiSkeleton.Marketplace

open Lib Config

variable {κ ν : Type}

/-! ## The package set -/

/-- The files of a distribution under the prefix: all there, some gone, the `RECORD` among those
gone. -/
inductive Files where
  | whole
  | torn
  | unrecorded
deriving DecidableEq

/-- A distribution under the prefix. -/
structure Dist where
  version : String
  files : Files := .whole
deriving DecidableEq

/-- The distributions of the environment, and those under the plugin prefix. -/
structure Packages where
  env : Finmap fun _ : String => String
  inPrefix : Finmap fun _ : String => List Dist
deriving DecidableEq

namespace Packages

/-- The distributions that a scan of the prefix finds under a name. -/
def dists (packages : Packages) (package : String) : List Dist :=
  (packages.inPrefix.lookup package).getD []

/-- `pip install` of a pin. In the environment it replaces the version that is there; under the
prefix it adds one, and nothing where the environment provides the very version. -/
def pipInstall (hasPrefix : Bool) (package version : String) (packages : Packages) : Packages :=
  if hasPrefix then
    if packages.env.lookup package = some version then packages
    else
      { packages with
        inPrefix := packages.inPrefix.insert package
          (⟨version, .whole⟩ :: (packages.dists package).filter (·.version ≠ version)) }
  else { packages with env := packages.env.insert package version }

/-- `pip uninstall`, which skips a package that is not there. -/
def pipUninstall (package : String) (packages : Packages) : Packages :=
  { packages with env := packages.env.erase package }

/-- `uninstall_from_prefix`; `none` where it raises. -/
def uninstallFromPrefix (package : String) (packages : Packages) : Option Packages :=
  match packages.dists package with
  | [] => none
  | dist :: rest =>
    if dist.files = .unrecorded then none
    else
      some { packages with inPrefix :=
        if rest = [] then packages.inPrefix.erase package
        else packages.inPrefix.insert package rest }

/-- `_remove_package`; `none` where it raises. -/
def remove (hasPrefix : Bool) (package : String) (packages : Packages) : Option Packages :=
  if hasPrefix then
    if packages.dists package ≠ [] then packages.uninstallFromPrefix package
    else if package ∈ packages.env then some packages
    else none
  else some (packages.pipUninstall package)

end Packages

/-! ## The deployment -/

/-- What the installer reads of an attribution row; `spec` is what `_spec_from_row` makes of its
column, `none` where that is corrupt. -/
structure InstallRecord (κ : Type) where
  version : String
  source : String
  artifactRef : Option String
  sha256 : Option String
  spec : Option (PluginSpec κ)

/-- A deployment: whether it has a plugin prefix, the bindings of the item kinds, the resolved view
of a document, and whether a resolved document is a valid manifest. -/
structure Deployment (κ ν : Type) where
  hasPrefix : Bool
  bindings : κ → Option ManifestBinding
  resolve : Manifest ν → Manifest ν
  validates : Manifest ν → Bool

/-- An install, or the update of a row, with the row it is to write. -/
structure Job (κ : Type) where
  spec : PluginSpec κ
  record : InstallRecord κ
  old : Option (PluginSpec κ × InstallRecord κ)

namespace Deployment

variable (D : Deployment κ ν)

/-- What the pipeline persists of a document: it is validated, and sealed against the current
one. -/
def compose [PyNumber ν] (document current : Manifest ν) : Option (Manifest ν) :=
  if D.validates (D.resolve document) then
    (sealResolvedSecrets document current (D.resolve current)).toOption
  else none

/-- The mutator of an install or an update. -/
def patch [PyNumber ν] (job : Job κ) (document : Manifest ν) : Option (Manifest ν) := do
  let targets ← groupedTargets D.bindings job.spec
  match job.old with
  | none => applyProvides targets document
  | some (oldSpec, _) =>
    let oldTargets ← groupedTargets D.bindings oldSpec
    applyProvides targets (removeProvides oldTargets document)

/-- `_guard_env_shadow` -/
def shadows (job : Job κ) (packages : Packages) : Bool :=
  D.hasPrefix && (packages.env.lookup job.spec.package).any (· ≠ job.record.version)

/-- The old pin is installed again. -/
def reinstall (job : Job κ) (packages : Packages) : Packages :=
  match job.old with
  | none => packages
  | some (oldSpec, row) => packages.pipInstall D.hasPrefix oldSpec.package row.version

end Deployment

/-! ## Calls -/

/-- How a call ends. -/
inductive Result where
  | succeeded
  | failed
  | cancelled
  | unwindError
deriving DecidableEq

/-- Where the running call is: at a step that is named for what it does, with the document it has
saved. A call that its first checks refuse has no job. -/
inductive Phase (κ ν : Type) where
  | idle
  | refused
  | resolving (job : Job κ)
  | removingOld (job : Job κ)
  | installing (job : Job κ)
  | reinstalling (job : Job κ)
  | snapshotting (job : Job κ)
  | applying (job : Job κ) (saved : Manifest ν)
  | reloading (job : Job κ) (saved : Manifest ν)
  | recording (job : Job κ) (saved : Manifest ν)
  | undoing (job : Job κ) (saved : Option (Manifest ν))
  | reverting (job : Job κ) (saved : Option (Manifest ν))
  | restoring (job : Job κ) (saved : Manifest ν)
  | converging (job : Job κ)
  | removing (job : Job κ)
  | ended (job : Job κ) (result : Result)
  | stripping (spec : PluginSpec κ)
  | deregistering (spec : PluginSpec κ)
  | uninstalling (spec : PluginSpec κ)
  | deleting (spec : PluginSpec κ)
  | uninstallEnded (spec : PluginSpec κ) (result : Result)

/-- The three stores and the running call, with what they held as the call began and the document
that the other writers have made of that one since. -/
structure World (κ ν : Type) where
  manifest : Manifest ν
  row : Option (InstallRecord κ)
  packages : Packages
  phase : Phase κ ν := .idle
  expected : Manifest ν
  rowBefore : Option (InstallRecord κ)
  packagesBefore : Packages

/-- Another writer commits an edit; a call begins; its step returns, raises, or is cancelled. Of a
write that did not return, `landed` is whether it was committed, and of a package step, `left` is
the package set that it leaves. -/
inductive Act (κ ν : Type) where
  | edit (f : Manifest ν → Manifest ν)
  | install (spec : PluginSpec κ) (record : InstallRecord κ)
  | update (spec : PluginSpec κ) (record : InstallRecord κ)
  | uninstall
  | ok
  | fail (landed : Bool) (left : Packages)
  | cancel (landed : Bool) (left : Packages)

namespace Phase

/-- No call is running. -/
def atRest : Phase κ ν → Bool
  | idle => true
  | refused => true
  | ended _ _ => true
  | uninstallEnded _ _ => true
  | _ => false

/-- The step is awaited, so that a cancellation can arrive. -/
def awaits (hasPrefix : Bool) : Phase κ ν → Bool
  | resolving _ => true
  | installing _ => true
  | reinstalling _ => true
  | reloading _ _ => true
  | recording _ _ => true
  | reverting _ _ => true
  | converging _ => true
  | removing _ => !hasPrefix
  | deregistering _ => true
  | uninstalling _ => !hasPrefix
  | deleting _ => true
  | _ => false

end Phase

namespace World

variable [PyNumber ν] (D : Deployment κ ν) (s : World κ ν)

/-- A call begins. -/
def begin (phase : Phase κ ν) : World κ ν :=
  { s with
    phase
    expected := s.manifest
    rowBefore := s.row
    packagesBefore := s.packages }

/-- The checks of an install or an update before the first package step. -/
def preflight (job : Job κ) : Bool :=
  (D.patch job s.manifest).isSome && !D.shadows job s.packages &&
    (job.old.map (·.2.version)).all (· ≠ job.record.version)

/-- The step of the call returns; `none` where it raises. -/
def ok : Option (World κ ν) :=
  match s.phase with
  | .resolving job =>
    if s.preflight D job then
      some { s with phase :=
        if D.hasPrefix && job.old.isSome then .removingOld job else .installing job }
    else none
  | .removingOld job =>
    job.old.bind fun old => (s.packages.uninstallFromPrefix old.1.package).map fun packages =>
      { s with packages, phase := .installing job }
  | .installing job =>
    some { s with
      packages := s.packages.pipInstall D.hasPrefix job.spec.package job.record.version
      phase := .snapshotting job }
  | .reinstalling job =>
    some { s with packages := D.reinstall job s.packages, phase := .ended job .failed }
  | .snapshotting job => some { s with phase := .applying job s.manifest }
  | .applying job saved =>
    ((D.patch job s.manifest).bind fun document => D.compose document s.manifest).map
      fun manifest => { s with manifest, phase := .reloading job saved }
  | .reloading job saved => some { s with phase := .recording job saved }
  | .recording job _ => some { s with row := some job.record, phase := .ended job .succeeded }
  | .undoing job saved =>
    (s.packages.uninstallFromPrefix job.spec.package).map fun packages =>
      { s with packages, phase := .reverting job saved }
  | .reverting job saved =>
    some { s with
      packages := D.reinstall job s.packages
      phase :=
        match saved with
        | some saved => .restoring job saved
        | none => .ended job .failed }
  | .restoring job saved =>
    (D.compose saved s.manifest).map fun manifest => { s with manifest, phase := .converging job }
  | .converging job =>
    some { s with phase := if job.old.isSome then .ended job .failed else .removing job }
  | .removing job =>
    (s.packages.remove D.hasPrefix job.spec.package).map fun packages =>
      { s with packages, phase := .ended job .failed }
  | .stripping spec =>
    (groupedTargets D.bindings spec).bind fun targets =>
      if targets = [] then some { s with phase := .uninstalling spec }
      else
        (D.compose (removeProvides targets s.manifest) s.manifest).map fun manifest =>
          { s with manifest, phase := .deregistering spec }
  | .deregistering spec => some { s with phase := .uninstalling spec }
  | .uninstalling spec =>
    (s.packages.remove D.hasPrefix spec.package).map fun packages =>
      { s with packages, phase := .deleting spec }
  | .deleting spec => some { s with row := none, phase := .uninstallEnded spec .succeeded }
  | _ => none

/-- The unwind of a job whose manifest apply or attribution write raised. -/
def unwind (job : Job κ) (saved : Option (Manifest ν)) : Phase κ ν :=
  match job.old, saved with
  | some _, saved => if D.hasPrefix then .undoing job saved else .reverting job saved
  | none, some saved => .restoring job saved
  | none, none => .removing job

/-- Where a step that raises leaves the call. -/
def afterFail : Phase κ ν → Phase κ ν
  | .resolving job => .ended job .failed
  | .removingOld job => .ended job .failed
  | .installing job =>
    if D.hasPrefix && job.old.isSome then .reinstalling job else .ended job .failed
  | .reinstalling job => .ended job .unwindError
  | .snapshotting job => .ended job .failed
  | .applying job _ => unwind D job none
  | .reloading job saved => unwind D job (some saved)
  | .recording job saved => unwind D job (some saved)
  | .undoing job _ => .ended job .unwindError
  | .reverting job _ => .ended job .unwindError
  | .restoring job _ => .ended job .unwindError
  | .converging job => .ended job .unwindError
  | .removing job => .ended job .unwindError
  | .stripping spec => .uninstallEnded spec .failed
  | .deregistering spec => .uninstallEnded spec .failed
  | .uninstalling spec => .uninstallEnded spec .failed
  | .deleting spec => .uninstallEnded spec .failed
  | phase => phase

/-- Where a cancellation leaves the call: no `except` of the installer catches it. -/
def afterCancel : Phase κ ν → Phase κ ν
  | .resolving job => .ended job .cancelled
  | .installing job => .ended job .cancelled
  | .reinstalling job => .ended job .cancelled
  | .reloading job _ => .ended job .cancelled
  | .recording job _ => .ended job .cancelled
  | .reverting job _ => .ended job .cancelled
  | .converging job => .ended job .cancelled
  | .removing job => .ended job .cancelled
  | .deregistering spec => .uninstallEnded spec .cancelled
  | .uninstalling spec => .uninstallEnded spec .cancelled
  | .deleting spec => .uninstallEnded spec .cancelled
  | phase => phase

/-- The package set that a step which did not return leaves. -/
def packagesLeft (left : Packages) : Packages :=
  match s.phase with
  | .removingOld _ => left
  | .installing _ => left
  | .reinstalling _ => left
  | .undoing _ _ => left
  | .reverting _ _ => left
  | .removing _ => left
  | .uninstalling _ => left
  | _ => s.packages

/-- The document that a write persists which commits without returning. -/
def manifestLanded : Option (Manifest ν) :=
  match s.phase with
  | .applying job _ => (D.patch job s.manifest).bind fun document => D.compose document s.manifest
  | .restoring _ saved => D.compose saved s.manifest
  | .stripping spec =>
    (groupedTargets D.bindings spec).bind fun targets =>
      D.compose (removeProvides targets s.manifest) s.manifest
  | _ => none

/-- The row after a write that commits without returning. -/
def rowLanded : Option (InstallRecord κ) :=
  match s.phase with
  | .recording job _ => some job.record
  | .deleting _ => none
  | _ => s.row

/-- What a step that did not return leaves of the stores. -/
def halfDone (landed : Bool) (left : Packages) : World κ ν :=
  { s with
    packages := s.packagesLeft left
    manifest := if landed then (s.manifestLanded D).getD s.manifest else s.manifest
    row := if landed then s.rowLanded else s.row }

def step : Act κ ν → Option (World κ ν)
  | .edit f => some { s with manifest := f s.manifest, expected := f s.expected }
  | .install spec record =>
    if s.phase.atRest then
      some (s.begin (if s.row.isSome then .refused else .resolving ⟨spec, record, none⟩))
    else none
  | .update spec record =>
    if s.phase.atRest then
      some (s.begin (match s.row with
        | none => .refused
        | some row =>
          match row.spec with
          | none => .refused
          | some oldSpec => .resolving ⟨spec, record, some (oldSpec, row)⟩))
    else none
  | .uninstall =>
    if s.phase.atRest then
      some (s.begin (match s.row.bind (·.spec) with
        | none => .refused
        | some spec => .stripping spec))
    else none
  | .ok => s.ok D
  | .fail landed left =>
    if s.phase.atRest then none
    else some { s.halfDone D landed left with phase := afterFail D s.phase }
  | .cancel landed left =>
    if s.phase.awaits D.hasPrefix then
      some { s.halfDone D landed left with phase := afterCancel s.phase }
    else none

end World

/-! ## Edits of foreign entries -/

/-- What an edit makes of the foreign entries does not depend on the plugin's, and it adds none of
the plugin's. -/
structure Foreign (targets : List FieldTargets) (f : Manifest ν → Manifest ν) : Prop where
  strips : ∀ document, removeProvides targets (f document) =
    removeProvides targets (f (removeProvides targets document))
  clear : ∀ document, Clear targets document → Clear targets (f document)

/-- The plugin of an uninstall. -/
def Phase.uninstalls : Phase κ ν → Option (PluginSpec κ)
  | .stripping spec => some spec
  | .deregistering spec => some spec
  | .uninstalling spec => some spec
  | .deleting spec => some spec
  | .uninstallEnded spec _ => some spec
  | _ => none

/-- The other writers edit no entry of the plugin that is uninstalled. -/
def World.Assumed (D : Deployment κ ν) (s : World κ ν) : Act κ ν → Prop
  | .edit f => ∀ spec ∈ s.phase.uninstalls, ∀ targets ∈ groupedTargets D.bindings spec,
      Foreign targets f
  | _ => True

/-- The runs of a deployment from any manifest, row and package set. -/
def installer [PyNumber ν] (D : Deployment κ ν) : System (World κ ν) (Act κ ν) where
  init s := s.phase = .idle
  step s a s' := s.Assumed D a ∧ s.step D a = some s'

end TaiSkeleton.Marketplace
