import TaiSkeleton.Tools.Binding

/-!
# The preset manager

How a preset is bound over a base tool, torn down, re-read from the store, and rehydrated or
reconciled with the rest.
-/

namespace TaiSkeleton.Tools

/-- `is_valid_preset_name` -/
def isValidPresetName (name : String) : Bool :=
  decide (0 < name.length) && decide (name.length ≤ 64) &&
    name.toList.all fun c => c.isAlphanum || c == '_' || c == '-'

namespace TaiMCP

variable {ε υ μ : Type}

/-- `self._quarantine[name] = reason` -/
def quarantineAs (name : String) (reason : QuarantineReason) (app : TaiMCP ε υ μ) :
    TaiMCP ε υ μ :=
  { app with quarantine := app.quarantine.insert name reason }

/-- `drop_quarantine` -/
def dropQuarantine (name : String) (app : TaiMCP ε υ μ) : TaiMCP ε υ μ :=
  { app with quarantine := app.quarantine.erase name }

/-- `_remove_registration` -/
def removeRegistration (name : String) (app : TaiMCP ε υ μ) : TaiMCP ε υ μ :=
  { app with
    live := ((app.toolRegistry.branches name).foldl (fun live b => live.erase b) app.live).erase name
    toolRegistry := app.toolRegistry.unregisterToolBase name
    specs := app.specs.erase name }

section

variable [DecidableEq ε]

/-- The `try` of `_register` and what it does where it raises. -/
def bindPreset (plugins : Plugins ε υ) (name : String) (body : PresetBody ε υ) (base : Tool)
    (app : TaiMCP ε υ μ) : TaiMCP ε υ μ × Bool :=
  let app := { app with toolRegistry := app.toolRegistry.unregisterTool name }
  match app.toolRegistry.registerTool name body.extensions with
  | none => (app.removeRegistration name, false)
  | some toolRegistry =>
    let tool := Tool.over body.baseTool base
    match ({ app with toolRegistry } : TaiMCP ε υ μ).bindToolFunc plugins none name tool with
    | (app, true) => ({ app with specs := app.specs.insert name body }, true)
    | (app, false) => (app.removeRegistration name, false)

/-- The base tool that `_register` binds over; `none` where it raises before it binds. -/
def presetBase (plugins : Plugins ε υ) (name : String) (body : PresetBody ε υ)
    (app : TaiMCP ε υ μ) : Option Tool :=
  if name ∈ app.specs ∨ name ∈ app.live then none
  else (app.live.lookup body.baseTool).filter (plugins.bakes body)

/-- `_register`; the Boolean is false where it raises. -/
def register (plugins : Plugins ε υ) (name : String) (body : PresetBody ε υ)
    (app : TaiMCP ε υ μ) : TaiMCP ε υ μ × Bool :=
  match app.presetBase plugins name body with
  | none => (app, false)
  | some base => app.bindPreset plugins name body base

/-- A preset's registration leaves the operation registry alone. -/
theorem operations_register (plugins : Plugins ε υ) (name : String) (body : PresetBody ε υ)
    (app : TaiMCP ε υ μ) : (app.register plugins name body).1.operations = app.operations := by
  unfold register
  cases app.presetBase plugins name body with
  | none => rfl
  | some base =>
    show (app.bindPreset plugins name body base).1.operations = _
    unfold bindPreset
    simp only
    split
    · rfl
    · next toolRegistry _ =>
      have hbind := operations_bindToolFunc plugins none name (.over body.baseTool base)
        { app with toolRegistry }
      split
      · next heq => exact (congrArg (·.1.operations) heq).symm.trans hbind
      · next heq => exact (congrArg (·.1.operations) heq).symm.trans hbind

end

/-- The checks of `_rehydrate_one` on the base of a preset. -/
def checkBase (presetNames live : List String) (name : String) (body : PresetBody ε υ)
    (app : TaiMCP ε υ μ) : TaiMCP ε υ μ × Bool :=
  if body.baseTool ∈ presetNames then
    (app.quarantineAs name (.baseIsPreset body.baseTool), false)
  else if body.baseTool ∉ live then
    (app.quarantineAs name (.baseNotRegistered body.baseTool), false)
  else (app, true)

/-- `_rehydrate_one` up to its `_register`; the Boolean is whether that follows. -/
def rehydrateOne [DecidableEq ε] [DecidableEq υ] (prior : Dict (PresetBody ε υ))
    (presetNames live : List String) (name : String) (body : PresetBody ε υ)
    (app : TaiMCP ε υ μ) : TaiMCP ε υ μ × Bool :=
  if name ∈ live ∧ name ∉ prior then (app.quarantineAs name .nameOccupied, false)
  else if name ∈ live ∧ prior.lookup name = some body then
    ({ app with specs := app.specs.insert name body }, false)
  else if name ∈ live then (app.removeRegistration name).checkBase presetNames live name body
  else app.checkBase presetNames live name body

/-- The presets that `reconcile_bases` goes through. -/
def affectedPresets (affectedBases : List String) (app : TaiMCP ε υ μ) : List String :=
  (app.specs.entries.filter fun entry => entry.2.baseTool ∈ affectedBases).map Sigma.fst

/-- `reconcile_bases` for one preset up to its `_register`; the Boolean is whether that follows. -/
def reconcileOne (live : List String) (name : String) (body : PresetBody ε υ)
    (app : TaiMCP ε υ μ) : TaiMCP ε υ μ × Bool :=
  let app := app.removeRegistration name
  if body.baseTool ∈ live then (app, true)
  else (app.quarantineAs name (.baseVanished body.baseTool), false)

end TaiMCP

/-! ## What is under way -/

/-- A `reload` of a preset: it has torn the preset down and reads its active body, or it binds the
captured spec again after that body failed. -/
inductive Reloading (ε υ : Type) where
  | reading (captured : Option (PresetBody ε υ))
  | restoring (captured : PresetBody ε υ)

/-- A `rehydrate`: it reads the store, or binds the records it has read one after another, the
current one between its decision and its `_register`. -/
inductive Rehydration (ε υ : Type) where
  | reading (prior : Dict (PresetBody ε υ))
  | binding (prior : Dict (PresetBody ε υ)) (presetNames live : List String)
      (records : List (String × PresetBody ε υ)) (current : Option (String × PresetBody ε υ))

end TaiSkeleton.Tools
