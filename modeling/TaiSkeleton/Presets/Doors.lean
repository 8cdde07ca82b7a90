import Mathlib.Data.Fintype.Basic
import TaiSkeleton.Lib.Run
import TaiSkeleton.Tools.Binding
import TaiSkeleton.Versioning.Operations

/-!
# The doors of the presets

Any number of calls create, save, roll back, rename and delete presets on one worker. Each call
reads and checks, writes the store in one transaction, and binds or tears down the live tool under
the lock of its name; a call whose binding fails makes up for its write.
-/

namespace TaiSkeleton.Presets

open Lib Tools Versioning

/-! ## Calls -/

/-- What a `save_version` is given; the rest is carried forward. -/
structure Edit (ε υ : Type) where
  fixedKwargs : Option (Kwargs υ) := none
  extensions : Option (List (List ε)) := none
  outputSchema : Option (Option υ) := none
  description : Option String := none

/-- The body of the new version over the active one. -/
def Edit.apply {ε υ : Type} (edit : Edit ε υ) (active : PresetBody ε υ) : PresetBody ε υ where
  baseTool := active.baseTool
  description := edit.description.getD active.description
  fixedKwargs := edit.fixedKwargs.getD active.fixedKwargs
  extensions := edit.extensions.getD active.extensions
  outputSchema := edit.outputSchema.getD active.outputSchema

/-- The calls. -/
inductive Call (ε υ : Type) where
  | createPreset (name : String) (body : PresetBody ε υ)
  | saveVersion (name : String) (edit : Edit ε υ)
  | rollbackPreset (name : String) (version : ℕ)
  | renamePreset (name newName : String)
  | deletePreset (name : String)

/-- What a call does when the reload after its write fails: it points the document at the version
that was active when it started, or moves the document back to its name. -/
inductive Compensation where
  | repoint (name : String) (version : ℕ)
  | renameBack (name newName : String)
deriving DecidableEq

/-- The name that the call reloads. -/
def Compensation.target : Compensation → String
  | .repoint name _ => name
  | .renameBack _ newName => newName

/-- Where a call is. -/
inductive Stage (ε υ : Type) where
  | idle
  | creating (name : String) (body : PresetBody ε υ)
  | registering (name : String) (body : PresetBody ε υ)
  | undoing (name : String)
  | saving (name : String) (edit : Edit ε υ) (prior : ℕ)
  | validated (name : String) (edit : Edit ε υ) (prior : ℕ) (body : PresetBody ε υ)
  | rollingBack (name : String) (version prior : ℕ)
  | naming (name newName : String)
  | moving (name newName : String)
  | reloading (compensation : Compensation)
  | reading (compensation : Compensation) (captured : Option (PresetBody ε υ))
  | binding (compensation : Compensation) (captured : Option (PresetBody ε υ))
      (body : PresetBody ε υ)
  | compensating (compensation : Compensation)
  | removing (name : String)
  | hardDeleting (name : String)
  | dropping (name : String)
  | over

/-! ## Steps -/

/-- The active documents of the store and the live presets by name, the names in quarantine, who
holds the lock of a name, and the calls; with the bodies that saves have validated and committed. -/
structure World (ι ε υ : Type) where
  store : String → Option (Document (PresetBody ε υ))
  live : String → Option (PresetBody ε υ)
  quarantined : String → Bool := fun _ => false
  lock : String → Option ι := fun _ => none
  calls : ι → Stage ε υ := fun _ => .idle
  saved : List (PresetBody ε υ × PresetBody ε υ) := []

/-- A call starts, is refused by a check, or takes its next step, which may fail. -/
inductive Act (ι ε υ : Type) where
  | start (call : ι) (request : Call ε υ)
  | refuse (call : ι)
  | step (call : ι) (fails : Bool)

namespace World

variable {ι ε υ : Type} [DecidableEq ι]

/-- `get_active_body` -/
def active (s : World ι ε υ) (name : String) : Option (PresetBody ε υ) :=
  (s.store name).bind Document.activeBody

/-- A call goes on to a stage. -/
def goto (call : ι) (stage : Stage ε υ) (s : World ι ε υ) : World ι ε υ :=
  { s with calls := Function.update s.calls call stage }

/-- The document of a name. -/
def put (name : String) (doc : Option (Document (PresetBody ε υ))) (s : World ι ε υ) :
    World ι ε υ :=
  { s with store := Function.update s.store name doc }

/-- The live preset of a name. -/
def bind (name : String) (body : Option (PresetBody ε υ)) (s : World ι ε υ) : World ι ε υ :=
  { s with live := Function.update s.live name body }

/-- The lock of a name. -/
def hold (name : String) (holder : Option ι) (s : World ι ε υ) : World ι ε υ :=
  { s with lock := Function.update s.lock name holder }

/-- The document of a name moves to another one, which is free. -/
def move (name newName : String) (doc : Document (PresetBody ε υ)) (s : World ι ε υ) :
    World ι ε υ :=
  (s.put name none).put newName (some { doc with name := newName })

/-- The checks of a call and its first read. -/
def start (call : ι) (s : World ι ε υ) : Call ε υ → World ι ε υ
  | .createPreset name body =>
    if s.quarantined name ∨ (s.live name).isSome then s.goto call .over
    else s.goto call (.creating name body)
  | .saveVersion name edit =>
    match s.quarantined name, s.store name with
    | false, some doc => s.goto call (.saving name edit doc.activeVersion)
    | _, _ => s.goto call .over
  | .rollbackPreset name version =>
    match s.quarantined name, s.store name with
    | false, some doc => s.goto call (.rollingBack name version doc.activeVersion)
    | _, _ => s.goto call .over
  | .renamePreset name newName =>
    if newName = name ∨ s.quarantined name ∨ (s.store name).isNone then s.goto call .over
    else s.goto call (.naming name newName)
  | .deletePreset name =>
    if s.quarantined name then s.goto call (.hardDeleting name)
    else if (s.store name).isNone then s.goto call .over
    else (s.put name none).goto call (.removing name)

/-- What follows a reload. -/
def afterReload (call : ι) (s : World ι ε υ) : Compensation → World ι ε υ
  | .repoint _ _ => s.goto call .over
  | .renameBack name _ => s.goto call (.removing name)

/-- The compensation of a call. It raises where its document is gone. -/
def compensate (s : World ι ε υ) : Compensation → World ι ε υ
  | .repoint name version =>
    match s.store name with
    | some doc =>
      if (doc.bodyAt version).isSome then s.put name (some (doc.rollback version)) else s
    | none => s
  | .renameBack name newName =>
    match s.store newName, s.store name with
    | some doc, none => s.move newName name doc
    | _, _ => s

/-- The next step of a call. A call that waits for a lock has none; no compensation fails. -/
def step (call : ι) (fails : Bool) (s : World ι ε υ) : Option (World ι ε υ) :=
  match s.calls call with
  | .creating name body =>
    if fails ∨ (s.store name).isSome then some (s.goto call .over)
    else some ((s.put name (some (.create "preset" name body))).goto call (.registering name body))
  | .registering name body =>
    if (s.lock name).isSome then none
    else if fails ∨ (s.live name).isSome then some (s.goto call (.undoing name))
    else some ((s.bind name (some body)).goto call .over)
  | .undoing name => if fails then none else some ((s.put name none).goto call .over)
  | .saving name edit prior =>
    match fails, s.active name with
    | false, some active => some (s.goto call (.validated name edit prior (edit.apply active)))
    | _, _ => some (s.goto call .over)
  | .validated name edit prior body =>
    match fails, s.store name, s.active name with
    | false, some doc, some active =>
      some ({ s.put name (some (doc.saveVersion (edit.apply active))) with
        saved := (body, edit.apply active) :: s.saved }.goto call
          (.reloading (.repoint name prior)))
    | _, _, _ => some (s.goto call .over)
  | .rollingBack name version prior =>
    match s.store name with
    | some doc =>
      if fails ∨ (doc.bodyAt version).isNone then some (s.goto call .over)
      else some ((s.put name (some (doc.rollback version))).goto call
        (.reloading (.repoint name prior)))
    | none => some (s.goto call .over)
  | .naming name newName =>
    if fails ∨ s.quarantined newName ∨ (s.live newName).isSome then some (s.goto call .over)
    else some (s.goto call (.moving name newName))
  | .moving name newName =>
    match s.store name, s.store newName with
    | some doc, none =>
      if fails then some (s.goto call .over)
      else some ((s.move name newName doc).goto call (.reloading (.renameBack name newName)))
    | _, _ => some (s.goto call .over)
  | .reloading compensation =>
    let name := compensation.target
    if (s.lock name).isSome then none
    else some (((s.bind name none).hold name (some call)).goto call
      (.reading compensation (s.live name)))
  | .reading compensation captured =>
    let name := compensation.target
    match fails, s.active name with
    | false, some body => some (s.goto call (.binding compensation captured body))
    | _, _ => some ((s.hold name none).goto call (.compensating compensation))
  | .binding compensation captured body =>
    let name := compensation.target
    if fails then
      some (((s.bind name captured).hold name none).goto call (.compensating compensation))
    else some (((s.bind name (some body)).hold name none).afterReload call compensation)
  | .compensating compensation =>
    if fails then none else some ((s.compensate compensation).goto call .over)
  | .removing name =>
    if (s.lock name).isSome ∨ fails then none else some ((s.bind name none).goto call .over)
  | .hardDeleting name =>
    if fails then some (s.goto call .over)
    else some ((s.put name none).goto call (.dropping name))
  | .dropping name =>
    some ({ s with quarantined := Function.update s.quarantined name false }.goto call .over)
  | .idle => none
  | .over => none

def next (s : World ι ε υ) : Act ι ε υ → Option (World ι ε υ)
  | .start call request =>
    match s.calls call with
    | .idle => some (s.start call request)
    | _ => none
  | .refuse call =>
    match s.calls call with
    | .idle | .creating _ _ | .saving _ _ _ | .rollingBack _ _ _ | .moving _ _ =>
      some (s.goto call .over)
    | _ => none
  | .step call fails => s.step call fails

end World

/-- The calls on presets whose live tools are those of the store. -/
def doors (ι ε υ : Type) [DecidableEq ι] : System (World ι ε υ) (Act ι ε υ) where
  init s := (∀ call, s.calls call = .idle) ∧ (∀ name, s.lock name = none) ∧ s.saved = [] ∧
    (∀ name doc, s.store name = some doc → doc.WellFormed) ∧
    (∀ name, s.quarantined name = true → s.live name = none) ∧
    ∀ name, s.quarantined name = false → s.live name = s.active name
  step s a s' := s.next a = some s'

end TaiSkeleton.Presets
