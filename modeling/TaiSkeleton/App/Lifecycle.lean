import TaiSkeleton.Lib.Run
import TaiSkeleton.Authz.Resolver
import TaiSkeleton.Presets.Manager

/-!
# The life of the tool surface

A worker starts, reloads its configuration as a whole or one MCP server of it, and registers,
reloads, removes and rehydrates presets; sub-MCP apps are built on demand and cached. Each step runs
up to the next point at which another may take its turn, or at which it can fail.
-/

namespace TaiSkeleton.Tools

open Lib

variable {ε υ μ : Type}

/-! ## The steps of a reload -/

namespace TaiMCP

/-- What `start` drops before anything can be registered again: the bound names of the MCP servers,
the routes and the cached sub-apps. -/
def resetRouter (app : TaiMCP ε υ μ) : TaiMCP ε υ μ :=
  { app with mcpBoundTools := ∅, routes := ∅, serverCache := ∅ }

/-- `start` up to `_initialize_components`. -/
def startOver (requestedTools : List String) (toolExtensions : List (String × List (List ε)))
    (app : TaiMCP ε υ μ) : TaiMCP ε υ μ :=
  { app.resetRouter with
    live := ∅
    operations := ∅
    rebuildDepth := app.rebuildDepth + 1
    toolRegistry := .init requestedTools toolExtensions }

/-- The end of `operation_registry.rebuilding()`. -/
def rebuilt (app : TaiMCP ε υ μ) : TaiMCP ε υ μ :=
  { app with rebuildDepth := app.rebuildDepth - 1 }

/-- `OperationRegistry.register`, which raises for a name that another record has. -/
def declareOperation (name : String) (metadata : μ) (app : TaiMCP ε υ μ) : TaiMCP ε υ μ :=
  if name ∈ app.operations then app
  else { app with operations := app.operations.insert name metadata }

/-! ## One MCP server -/

/-- The tools that an MCP server has bound. -/
def mcpBound (title : String) (app : TaiMCP ε υ μ) : List String :=
  (app.mcpBoundTools.lookup title).getD []

/-- Tools taken off the main server. -/
def removeTools (names : List String) (app : TaiMCP ε υ μ) : TaiMCP ε υ μ :=
  { app with live := names.foldl (fun live name => live.erase name) app.live }

/-- Tools taken out of the tool registry with their branches. -/
def unregisterTools (names : List String) (app : TaiMCP ε υ μ) : TaiMCP ε υ μ :=
  { app with toolRegistry :=
      names.foldl (fun registry name => registry.unregisterToolBase name) app.toolRegistry }

/-- `_apply_reloaded_mcp` up to the reconciliation; `none` for the bases it changed where it
raises. -/
def applyReloadedMcp (plugins : Plugins ε υ) (title : String) (names : List String)
    (app : TaiMCP ε υ μ) : TaiMCP ε υ μ × Option (List String) :=
  let oldBound := app.mcpBound title
  match (app.removeTools oldBound).mcpTools plugins title names with
  | (app, false) => (app, none)
  | (app, true) =>
    let newBound := app.mcpBound title
    (app.unregisterTools (oldBound.filter (· ∉ newBound)), some (oldBound ++ newBound))

/-- `_deregister_mcp` up to the reconciliation. -/
def deregisterMcp (title : String) (app : TaiMCP ε υ μ) : TaiMCP ε υ μ × List String :=
  let bound := app.mcpBound title
  let app := { app with mcpBoundTools := app.mcpBoundTools.erase title }
  ((app.removeTools bound).unregisterTools bound, bound)

/-! ## Sub-MCP apps -/

/-- `register_sub_mcp_app` -/
def registerSubMcpApp (slug : String) (config : RouteConfig) (app : TaiMCP ε υ μ) :
    TaiMCP ε υ μ :=
  { app with routes := app.routes.insert slug config, serverCache := app.serverCache.erase slug }

/-- `unregister_sub_mcp_app` -/
def unregisterSubMcpApp (slug : String) (app : TaiMCP ε υ μ) : TaiMCP ε υ μ :=
  { app with routes := app.routes.erase slug, serverCache := app.serverCache.erase slug }

/-- The tools of a sub-MCP app, each the object that is bound now; `none` where one is not. -/
def collectTools (live : Dict Tool) : List String → Option (Dict Tool)
  | [] => some ∅
  | name :: names =>
    match live.lookup name, collectTools live names with
    | some tool, some tools => some (tools.insert name tool)
    | _, _ => none

/-- `_get_or_build_app` of a slug that is registered and not cached, where its build succeeds. -/
def buildSubApp (slug : String) (app : TaiMCP ε υ μ) : Option (TaiMCP ε υ μ) :=
  match app.routes.lookup slug with
  | none => none
  | some config =>
    if slug ∈ app.serverCache then none
    else
      match collectTools app.live config.tools with
      | none => none
      | some tools =>
        let subApp := if config.transport = .stdio then none else some tools
        some { app with serverCache := app.serverCache.insert slug subApp }

end TaiMCP

/-! ## The worker -/

/-- Where the worker is: the gate is free; `_update` has captured the tools and `start` is next;
`start` initializes the components; the reload handlers run, one of them having failed or not; an
exception is on its way to the restoring of the captured tools; a scoped reload reconciles the
presets; the boot has failed. There is nothing captured at boot. -/
inductive Stage (ε υ : Type) where
  | free
  | updating (before : Option (Dict Tool))
  | initializing (before : Option (Dict Tool))
  | handling (failed : Bool) (before : Option (Dict Tool))
  | failing (before : Option (Dict Tool))
  | reconciling (live pending : List String) (current : Option (String × PresetBody ε υ))
  | stopped
deriving DecidableEq

/-- A worker with what is under way in it. -/
structure World (ε υ μ : Type) where
  app : TaiMCP ε υ μ := {}
  stage : Stage ε υ := .updating none
  reloading : Dict (Reloading ε υ) := ∅
  rehydrating : Option (Rehydration ε υ) := none

/-- The steps of a worker. -/
inductive Act (ε υ μ : Type) where
  | reloadConfig
  | start (requestedTools : List String) (toolExtensions : List (String × List (List ε)))
  | resetRaises
  | declare (name : String) (metadata : μ)
  | bindModuleTool (name : String)
  | bindMcp (title : String) (names : List String)
  | project (op : String)
  | raises
  | validate (ignore : List String)
  | bindHandlerTool (name : String)
  | handlerRaises
  | handled
  | restore
  | registerPreset (name : String) (body : PresetBody ε υ)
  | reloadPreset (name : String)
  | reloadRead (name : String) (body : Option (PresetBody ε υ))
  | reloadRestore (name : String)
  | removePreset (name : String)
  | fanOutRemove (name : String)
  | rehydrate
  | rehydrateRead (records : Option (List (String × Option (PresetBody ε υ))))
  | rehydrateOne
  | reloadMcp (title : String) (names : List String)
  | deregisterMcp (title : String)
  | reconcileOne
  | registerSubMcpApp (slug : String) (config : RouteConfig)
  | unregisterSubMcpApp (slug : String)
  | buildSubApp (slug : String)

/-- The stage that a reload handler's exception leaves: the other handlers still run. -/
def Stage.handlerRaised : Stage ε υ → Stage ε υ
  | .handling _ before => .handling true before
  | stage => stage

/-- Whether requests are served and steps taken. -/
def Stage.isRunning : Stage ε υ → Bool
  | .stopped => false
  | _ => true

/-- Whether the tools of the main server are there to be dispatched: those that a failed start has
left are about to be replaced by the captured ones. -/
def Stage.serves : Stage ε υ → Bool
  | .failing _ => false
  | .stopped => false
  | _ => true

namespace World

/-- A lock is held of a preset's name. -/
def isLocked (s : World ε υ μ) (name : String) : Bool := decide (name ∈ s.reloading)

/-- What becomes of `start` by a bind whose exception nothing catches. -/
def bound (s : World ε υ μ) (before : Option (Dict Tool)) :
    TaiMCP ε υ μ × Bool → World ε υ μ
  | (app, true) => { s with app }
  | (app, false) => { s with app := app.rebuilt, stage := .failing before }

/-- The step of a reload, at the stage it is taken at. -/
def reloadNext [DecidableEq ε] (plugins : Plugins ε υ) (s : World ε υ μ) :
    Act ε υ μ → Option (World ε υ μ)
  | .reloadConfig =>
    match s.stage with
    | .free => some { s with stage := .updating (some s.app.live) }
    | _ => none
  | .start requestedTools toolExtensions =>
    match s.stage with
    | .updating before =>
      some { s with
        app := s.app.startOver requestedTools toolExtensions
        stage := .initializing before }
    | _ => none
  | .resetRaises =>
    match s.stage with
    | .updating before => some { s with app := s.app.resetRouter, stage := .failing before }
    | _ => none
  | .declare name metadata =>
    match s.stage with
    | .initializing _ => some { s with app := s.app.declareOperation name metadata }
    | _ => none
  | .bindModuleTool name =>
    match s.stage with
    | .initializing _ =>
      some { s with app := (s.app.bindToolFunc plugins none name .capability).1 }
    | _ => none
  | .bindMcp title names =>
    match s.stage with
    | .initializing before => some (s.bound before (s.app.mcpTools plugins title names))
    | _ => none
  | .project op =>
    match s.stage with
    | .initializing before =>
      if op ∈ s.app.operations then
        some (s.bound before (s.app.bindToolFunc plugins none op (.operation op)))
      else none
    | _ => none
  | .raises =>
    match s.stage with
    | .initializing before => some { s with app := s.app.rebuilt, stage := .failing before }
    | _ => none
  | .validate ignore =>
    match s.stage with
    | .initializing before =>
      if s.app.toolRegistry.missingTools ⊆ ignore then
        some { s with app := s.app.rebuilt, stage := .handling false before }
      else some { s with app := s.app.rebuilt, stage := .failing before }
    | _ => none
  | .bindHandlerTool name =>
    match s.stage with
    | .handling _ _ =>
      some { s with app := (s.app.bindToolFunc plugins none name .capability).1 }
    | _ => none
  | .handlerRaises =>
    match s.stage with
    | .handling _ before => some { s with stage := .handling true before }
    | _ => none
  | .handled =>
    match s.stage, s.rehydrating with
    | .handling true before, none => some { s with stage := .failing before }
    | .handling false _, none => some { s with stage := .free }
    | _, _ => none
  | .restore =>
    match s.stage with
    | .failing (some before) => some { s with app := { s.app with live := before }, stage := .free }
    | .failing none => some { s with stage := .stopped }
    | _ => none
  | _ => none

/-- The step of a preset's `register`, `reload` or `remove`, or of a `remove` fanned out by a
sibling, which only drops the quarantine entry of a name that has one. -/
def presetNext [DecidableEq ε] (plugins : Plugins ε υ) (s : World ε υ μ) :
    Act ε υ μ → Option (World ε υ μ)
  | .registerPreset name body =>
    if s.isLocked name || !isValidPresetName name then none
    else some { s with app := (s.app.register plugins name body).1 }
  | .reloadPreset name =>
    if s.isLocked name then none
    else
      some { s with
        app := s.app.removeRegistration name
        reloading := s.reloading.insert name (.reading (s.app.specs.lookup name)) }
  | .reloadRead name body =>
    match s.reloading.lookup name, body with
    | some (.reading _), none => some { s with reloading := s.reloading.erase name }
    | some (.reading captured), some body =>
      let (app, ok) := s.app.register plugins name body
      match ok, captured with
      | false, some captured =>
        some { s with app, reloading := s.reloading.insert name (.restoring captured) }
      | _, _ => some { s with app, reloading := s.reloading.erase name }
    | _, _ => none
  | .reloadRestore name =>
    match s.reloading.lookup name with
    | some (.restoring captured) =>
      some { s with
        app := (s.app.register plugins name captured).1
        reloading := s.reloading.erase name }
    | _ => none
  | .removePreset name =>
    if s.isLocked name then none else some { s with app := s.app.removeRegistration name }
  | .fanOutRemove name =>
    if name ∈ s.app.quarantine then some { s with app := s.app.dropQuarantine name }
    else if s.isLocked name then none
    else some { s with app := (s.app.removeRegistration name).dropQuarantine name }
  | _ => none

/-- The step of a `rehydrate`. -/
def rehydrateNext [DecidableEq ε] [DecidableEq υ] (plugins : Plugins ε υ) (s : World ε υ μ) :
    Act ε υ μ → Option (World ε υ μ)
  | .rehydrate =>
    match s.rehydrating with
    | none =>
      some { s with
        app := { s.app with specs := ∅, quarantine := ∅ }
        rehydrating := some (.reading s.app.specs) }
    | some _ => none
  | .rehydrateRead none =>
    match s.rehydrating with
    | some (.reading _) => some { s with stage := s.stage.handlerRaised, rehydrating := none }
    | _ => none
  | .rehydrateRead (some records) =>
    match s.rehydrating with
    | some (.reading prior) =>
      let bodies := records.filterMap fun record => record.2.map (record.1, ·)
      let presetNames := records.map Prod.fst
      some { s with
        rehydrating := some (.binding prior presetNames s.app.live.keys bodies none) }
    | _ => none
  | .rehydrateOne =>
    match s.rehydrating with
    | some (.binding prior presetNames live records (some (name, body))) =>
      let (app, ok) := s.app.register plugins name body
      some { s with
        app := if ok then app else app.quarantineAs name .registrationFailed
        rehydrating := some (.binding prior presetNames live records none) }
    | some (.binding prior presetNames live ((name, body) :: records) none) =>
      let (app, registers) := s.app.rehydrateOne prior presetNames live name body
      let current := if registers then some (name, body) else none
      some { s with app, rehydrating := some (.binding prior presetNames live records current) }
    | some (.binding _ _ _ [] none) => some { s with rehydrating := none }
    | _ => none
  | _ => none

/-- The start of `reconcile_bases`. -/
def reconcile (s : World ε υ μ) (app : TaiMCP ε υ μ) (affectedBases : List String) :
    World ε υ μ :=
  { s with
    app
    stage := .reconciling app.live.keys (app.affectedPresets affectedBases) none }

/-- The step of a scoped reload. -/
def mcpNext [DecidableEq ε] (plugins : Plugins ε υ) (s : World ε υ μ) :
    Act ε υ μ → Option (World ε υ μ)
  | .reloadMcp title names =>
    match s.stage with
    | .free =>
      match s.app.applyReloadedMcp plugins title names with
      | (app, none) => some { s with app }
      | (app, some affected) => some (s.reconcile app affected)
    | _ => none
  | .deregisterMcp title =>
    match s.stage with
    | .free =>
      let (app, affected) := s.app.deregisterMcp title
      some (s.reconcile app affected)
    | _ => none
  | .reconcileOne =>
    match s.stage with
    | .reconciling live pending (some (name, body)) =>
      let (app, ok) := s.app.register plugins name body
      some { s with
        app := if ok then app else app.quarantineAs name .reRegisterFailed
        stage := .reconciling live pending none }
    | .reconciling live (name :: pending) none =>
      if s.isLocked name then none
      else
        match s.app.specs.lookup name with
        | none => some { s with stage := .reconciling live pending none }
        | some body =>
          let (app, registers) := s.app.reconcileOne live name body
          let current := if registers then some (name, body) else none
          some { s with app, stage := .reconciling live pending current }
    | .reconciling _ [] none => some { s with stage := .free }
    | _ => none
  | _ => none

/-- The step of the sub-MCP router. -/
def routerNext (s : World ε υ μ) : Act ε υ μ → Option (World ε υ μ)
  | .registerSubMcpApp slug config =>
    some { s with app := s.app.registerSubMcpApp slug config }
  | .unregisterSubMcpApp slug => some { s with app := s.app.unregisterSubMcpApp slug }
  | .buildSubApp slug =>
    if s.stage.serves then (s.app.buildSubApp slug).map fun app => { s with app } else none
  | _ => none

/-- The step of a worker. -/
def next [DecidableEq ε] [DecidableEq υ] (plugins : Plugins ε υ) (s : World ε υ μ)
    (a : Act ε υ μ) : Option (World ε υ μ) :=
  if s.stage.isRunning then
    s.reloadNext plugins a <|> s.presetNext plugins a <|> s.rehydrateNext plugins a <|>
      s.mcpNext plugins a <|> s.routerNext a
  else none

end World

/-- The workers from their boot on. -/
def toolSurface [DecidableEq ε] [DecidableEq υ] (plugins : Plugins ε υ) :
    System (World ε υ μ) (Act ε υ μ) where
  init s := s = {}
  step s a s' := s.next plugins a = some s'

end TaiSkeleton.Tools
