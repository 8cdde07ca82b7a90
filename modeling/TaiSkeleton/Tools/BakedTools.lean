import TaiSkeleton.Authz.Check
import TaiSkeleton.Authz.Resolver
import TaiSkeleton.Lib.Run
import TaiSkeleton.Presets.Manager

/-!
# Tools with the constants they bake

A preset's constants are in the spec map, which the resolver reads, and in the tool object that was
bound for it, which runs. The tool surface of a worker after its boot: operations and functions are
bound, presets are registered, reloaded and removed, and sub-MCP apps are built from the tool
objects of the moment.
-/

namespace TaiSkeleton.Tools

open Lib

variable {ε υ : Type}

/-! ## Tool objects -/

/-- A tool object, by the body it runs: a registered operation, another function, or the tool that
was bound under another name, over which a preset bakes constants or an extension none. -/
inductive BakedTool (υ : Type) where
  | operation (name : String)
  | capability
  | over (base : String) (baked : Kwargs υ) (tool : BakedTool υ)
deriving DecidableEq

namespace BakedTool

/-- The tool without its constants. -/
def plain : BakedTool υ → Tool
  | .operation name => .operation name
  | .capability => .capability
  | .over base _ tool => .over base tool.plain

def operation? : BakedTool υ → Option String
  | .operation name => some name
  | .capability => none
  | .over _ _ tool => tool.operation?

/-- The operation that a call reaches, with the arguments of its body. A key that a tool bakes is
refused, and passed on as the tool has it. -/
def call : BakedTool υ → Kwargs υ → Option (String × Kwargs υ)
  | .operation name, arguments => some (name, arguments)
  | .capability, _ => none
  | .over _ baked tool, arguments =>
    if ∃ key ∈ baked.keys, key ∈ arguments then none else tool.call (baked ∪ arguments)

/-- A call that reaches a body reaches an operation's. -/
theorem operation?_of_call (tool : BakedTool υ) {arguments bodyArgs : Kwargs υ} {body : String}
    (h : tool.call arguments = some (body, bodyArgs)) : ∃ root, tool.operation? = some root := by
  induction tool generalizing arguments with
  | operation name => exact ⟨name, rfl⟩
  | capability => cases h
  | «over» base baked tool ih => exact ih (Option.ite_none_left_eq_some.mp h).2

end BakedTool

/-! ## The surface -/

/-- The build of a sub-MCP app: the tools it has still to take, and those it has. -/
structure SubAppBuild (υ : Type) where
  rest : List String
  tools : Dict (BakedTool υ) := ∅

/-- The maps of the tool surface, with the tool objects that are bound and those of the sub-MCP
apps. -/
structure Surface (ε υ : Type) where
  operations : Dict Authz.OperationMetadata
  toolRegistry : ToolRegistry ε := {}
  live : Dict (BakedTool υ) := ∅
  specs : Dict (PresetBody ε υ) := ∅
  reloading : Dict (Reloading ε υ) := ∅
  routes : Dict RouteConfig := ∅
  serverCache : Dict (Option (Dict (BakedTool υ))) := ∅
  building : Dict (SubAppBuild υ) := ∅

namespace Surface

/-- What the resolver reads. -/
def app (s : Surface ε υ) : TaiMCP ε υ Authz.OperationMetadata :=
  { toolRegistry := s.toolRegistry, specs := s.specs, operations := s.operations }

/-! ## Binding -/

/-- The object that is bound under one of the names of a base. -/
def layerOf (origName : String) (tool : BakedTool υ) (currName : String) : BakedTool υ :=
  if currName = origName then tool else .over origName ∅ tool

/-- `bind_tool` -/
def bindTool (currName origName : String) (tool : BakedTool υ) (s : Surface ε υ) :
    Surface ε υ × Bool :=
  let s := { s with toolRegistry := s.toolRegistry.registerExtendTool origName currName }
  if currName ∈ s.live then (s, false) else ({ s with live := s.live.insert currName tool }, true)

/-- The loop of `bind_tool_func` over the names that it binds. -/
def bindTools (origName : String) (tool : BakedTool υ) :
    List String → Surface ε υ → Surface ε υ × Bool
  | [], s => (s, true)
  | name :: names, s =>
    match s.bindTool name origName (layerOf origName tool name) with
    | (s, true) => bindTools origName tool names s
    | (s, false) => (s, false)

/-- The names that `bind_tool_func` binds of a tool. -/
def namesOf (plugins : Plugins ε υ) (origName : String) (tool : BakedTool υ) (s : Surface ε υ) :
    Option (List String) :=
  TaiMCP.boundNames plugins origName tool.plain ((s.toolRegistry.tools.lookup origName).getD [])

/-- `bind_tool_func` -/
def bindToolFunc (plugins : Plugins ε υ) (origName : String) (tool : BakedTool υ)
    (s : Surface ε υ) : Surface ε υ × Bool :=
  match s.namesOf plugins origName tool with
  | none => (s, false)
  | some names => s.bindTools origName tool names

/-! ## Presets -/

/-- `_remove_registration` -/
def removeRegistration (name : String) (s : Surface ε υ) : Surface ε υ :=
  { s with
    live := ((s.toolRegistry.branches name).foldl (fun live b => live.erase b) s.live).erase name
    toolRegistry := s.toolRegistry.unregisterToolBase name
    specs := s.specs.erase name }

/-- The base tool that `_register` binds over; `none` where it raises before it binds. -/
def presetBase (plugins : Plugins ε υ) (name : String) (body : PresetBody ε υ)
    (s : Surface ε υ) : Option (BakedTool υ) :=
  if name ∈ s.specs ∨ name ∈ s.live then none
  else (s.live.lookup body.baseTool).filter fun base => plugins.bakes body base.plain

section

variable [DecidableEq ε]

/-- The surface with the combos of a preset seeded. -/
def seed (name : String) (body : PresetBody ε υ) (s : Surface ε υ) : Option (Surface ε υ) :=
  ((s.toolRegistry.unregisterTool name).registerTool name body.extensions).map
    fun toolRegistry => { s with toolRegistry }

/-- The `try` of `_register` and what it does where it raises. -/
def bindPreset (plugins : Plugins ε υ) (name : String) (body : PresetBody ε υ)
    (base : BakedTool υ) (s : Surface ε υ) : Surface ε υ × Bool :=
  match s.seed name body with
  | none =>
    let toolRegistry := s.toolRegistry.unregisterTool name
    (({ s with toolRegistry } : Surface ε υ).removeRegistration name, false)
  | some seeded =>
    match seeded.bindToolFunc plugins name (.over body.baseTool body.fixedKwargs base) with
    | (s, true) => ({ s with specs := s.specs.insert name body }, true)
    | (s, false) => (s.removeRegistration name, false)

/-- `_register` -/
def register (plugins : Plugins ε υ) (name : String) (body : PresetBody ε υ)
    (s : Surface ε υ) : Surface ε υ × Bool :=
  match s.presetBase plugins name body with
  | none => (s, false)
  | some base => s.bindPreset plugins name body base

end

end Surface

/-! ## Steps -/

/-- A function or an operation is bound; a preset is registered, reloaded or removed; a sub-MCP app
is registered, unregistered or built, one tool after another. -/
inductive SurfaceStep (ε υ : Type) where
  | bind (name : String)
  | project (op : String)
  | register (name : String) (body : PresetBody ε υ)
  | reload (name : String)
  | reloadRead (name : String) (body : Option (PresetBody ε υ))
  | reloadRestore (name : String)
  | remove (name : String)
  | registerSubMcpApp (slug : String) (config : RouteConfig)
  | unregisterSubMcpApp (slug : String)
  | beginBuild (slug : String)
  | takeTool (slug : String)
  | finishBuild (slug : String)

namespace Surface

variable [DecidableEq ε] (plugins : Plugins ε υ) (s : Surface ε υ)

/-- A body that was read for a reload is registered; where that raises, the captured spec is bound
again next. -/
def reloadBody (name : String) (captured : Option (PresetBody ε υ)) (body : PresetBody ε υ) :
    Surface ε υ :=
  match s.register plugins name body, captured with
  | (s, false), some captured =>
    { s with reloading := s.reloading.insert name (.restoring captured) }
  | (s, _), _ => { s with reloading := s.reloading.erase name }

/-- A slug has another registration, or none: what was built or is being built is dropped. -/
def dropSubApp (slug : String) : Surface ε υ :=
  { s with serverCache := s.serverCache.erase slug, building := s.building.erase slug }

/-- The next tool of a sub-MCP app; a tool that is not bound ends the build. -/
def takeTool (slug : String) (build : SubAppBuild υ) : Option (Surface ε υ) :=
  match build.rest with
  | [] => none
  | name :: rest =>
    match s.live.lookup name with
    | none => some { s with building := s.building.erase slug }
    | some tool =>
      some { s with building := s.building.insert slug ⟨rest, build.tools.insert name tool⟩ }

/-- An app that has all its tools is cached. -/
def finishBuild (slug : String) (config : RouteConfig) (build : SubAppBuild υ) :
    Option (Surface ε υ) :=
  if build.rest = [] then
    let subApp := if config.transport = .stdio then none else some build.tools
    some { s with
      serverCache := s.serverCache.insert slug subApp
      building := s.building.erase slug }
  else none

def step : SurfaceStep ε υ → Option (Surface ε υ)
  | .bind name => some (s.bindToolFunc plugins name .capability).1
  | .project op =>
    if op ∈ s.operations then some (s.bindToolFunc plugins op (.operation op)).1 else none
  | .register name body =>
    if name ∈ s.reloading ∨ isValidPresetName name = false then none
    else some (s.register plugins name body).1
  | .reload name =>
    if name ∈ s.reloading then none
    else
      some { s.removeRegistration name with
        reloading := s.reloading.insert name (.reading (s.specs.lookup name)) }
  | .reloadRead name body =>
    match s.reloading.lookup name, body with
    | some (.reading _), none => some { s with reloading := s.reloading.erase name }
    | some (.reading captured), some body => some (s.reloadBody plugins name captured body)
    | _, _ => none
  | .reloadRestore name =>
    match s.reloading.lookup name with
    | some (.restoring captured) => some (s.reloadBody plugins name none captured)
    | _ => none
  | .remove name => if name ∈ s.reloading then none else some (s.removeRegistration name)
  | .registerSubMcpApp slug config =>
    some { s.dropSubApp slug with routes := s.routes.insert slug config }
  | .unregisterSubMcpApp slug => some { s.dropSubApp slug with routes := s.routes.erase slug }
  | .beginBuild slug =>
    if slug ∈ s.serverCache ∨ slug ∈ s.building then none
    else
      (s.routes.lookup slug).map fun config =>
        { s with building := s.building.insert slug ⟨config.tools, ∅⟩ }
  | .takeTool slug => (s.building.lookup slug).bind (s.takeTool slug)
  | .finishBuild slug =>
    match s.routes.lookup slug, s.building.lookup slug with
    | some config, some build => s.finishBuild slug config build
    | _, _ => none

/-- The surfaces that the steps lead to from one on which nothing is bound yet. -/
def dispatchSurface : System (Surface ε υ) (SurfaceStep ε υ) where
  init s := ∃ operations toolRegistry, toolRegistry.extendTools = ∅ ∧
    s = { operations, toolRegistry }
  step s a s' := s.step plugins a = some s'

end Surface

/-! ## Calls -/

section

variable [DecidableEq υ]

/-- The arguments without those that are the sentinel `_UNSET`. -/
def strip (unset : υ) (arguments : Kwargs υ) : Kwargs υ where
  entries := arguments.entries.filter fun entry => entry.2 ≠ unset
  nodupKeys := by
    have hle := Multiset.map_le_map (f := Sigma.fst)
      (Multiset.filter_le (fun entry : Sigma fun _ : String => υ => entry.2 ≠ unset)
        arguments.entries)
    exact Multiset.nodup_keys.mp (Multiset.nodup_of_le hle arguments.nodupKeys.nodup_keys)

end

end TaiSkeleton.Tools
