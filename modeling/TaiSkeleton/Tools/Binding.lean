import Mathlib.Data.Finmap
import TaiSkeleton.Tools.Registry

/-!
# Binding tools

The maps of the running app that say what a tool name stands for, and how a function is bound under
its name and the names of its extension branches.
-/

namespace TaiSkeleton.Tools

/-- The arguments of a call by name. -/
abbrev Kwargs (υ : Type) := Finmap fun _ : String => υ

/-- `PresetBody`; JSON values are drawn from `υ`. -/
structure PresetBody (ε υ : Type) where
  baseTool : String
  description : String := ""
  fixedKwargs : Kwargs υ := ∅
  extensions : List (List ε) := []
  outputSchema : Option υ := none
deriving DecidableEq

/-- What the code of the plugins decides. `extend` names the function that an extension makes, over
a tool, of the one made so far, `none` where it is refused or raises; `bakes` is whether
`preset_bind` accepts the transform of a base tool. -/
structure Plugins (ε υ : Type) where
  extend : ε → Tool → String → Option String
  bakes : PresetBody ε υ → Tool → Bool

/-- The transports of a sub-MCP app. -/
inductive Transport where
  | http
  | sse
  | stdio
deriving DecidableEq

/-- `RouteConfig` -/
structure RouteConfig where
  tools : List String
  transport : Transport := .http

/-- Why a preset is quarantined. -/
inductive QuarantineReason where
  | nameOccupied
  | baseIsPreset (base : String)
  | baseNotRegistered (base : String)
  | registrationFailed
  | reRegisterFailed
  | baseVanished (base : String)

/-- The maps of a `TaiMCP`: the tools of its main server, the tool registry, the spec and quarantine
maps of its `PresetManager`, the operation registry with its records drawn from `μ`, the routes and
cached sub-apps of its `SubMcpAppRouter`, and the names each MCP server has bound. -/
structure TaiMCP (ε υ μ : Type) where
  live : Dict Tool := ∅
  toolRegistry : ToolRegistry ε := {}
  specs : Dict (PresetBody ε υ) := ∅
  quarantine : Dict QuarantineReason := ∅
  operations : Dict μ := ∅
  rebuildDepth : ℕ := 0
  routes : Dict RouteConfig := ∅
  serverCache : Dict (Option (Dict Tool)) := ∅
  mcpBoundTools : Dict (List String) := ∅

namespace TaiMCP

variable {ε υ μ : Type}

/-! ## The names of a bind -/

/-- The names of the functions that the extensions of one combo make in turn. -/
def layers (plugins : Plugins ε υ) (origName : String) (tool : Tool) :
    List ε → String → Option (List String)
  | [], _ => some []
  | extension :: extensions, currName =>
    match plugins.extend extension tool currName with
    | none => none
    | some name =>
      if name = origName then none
      else (layers plugins origName tool extensions name).map (name :: ·)

/-- The names that `bind_tool_func` binds, the base last; `none` where it raises before the first
of them. -/
def boundNames (plugins : Plugins ε υ) (origName : String) (tool : Tool)
    (combos : List (List ε)) : Option (List String) :=
  (combos.mapM fun extensions => layers plugins origName tool extensions origName).map
    fun names => names.flatten.reverse.dedup.reverse ++ [origName]

/-! ## Binding -/

/-- `bind_tool`, and the entry of the owner that `bind_tool_func` adds after it. The base of the
name is recorded first; then a name that is taken raises. -/
def bindTool (owner : Option String) (currName origName : String) (tool : Tool)
    (app : TaiMCP ε υ μ) : TaiMCP ε υ μ × Bool :=
  let app := { app with toolRegistry := app.toolRegistry.registerExtendTool origName currName }
  if currName ∈ app.live then (app, false)
  else
    let app := { app with live := app.live.insert currName tool }
    match owner with
    | none => (app, true)
    | some title =>
      let bound := (app.mcpBoundTools.lookup title).getD []
      ({ app with mcpBoundTools := app.mcpBoundTools.insert title (currName :: bound) }, true)

/-- The object that is bound under one of the names of a base. -/
def layerOf (origName : String) (tool : Tool) (currName : String) : Tool :=
  if currName = origName then tool else .over origName tool

/-- The loop of `bind_tool_func` over the names that it binds. -/
def bindTools (owner : Option String) (origName : String) (tool : Tool) :
    List String → TaiMCP ε υ μ → TaiMCP ε υ μ × Bool
  | [], app => (app, true)
  | name :: names, app =>
    match app.bindTool owner name origName (layerOf origName tool name) with
    | (app, true) => bindTools owner origName tool names app
    | (app, false) => (app, false)

/-- `bind_tool_func`; the Boolean is false where it raises. -/
def bindToolFunc (plugins : Plugins ε υ) (owner : Option String) (origName : String) (tool : Tool)
    (app : TaiMCP ε υ μ) : TaiMCP ε υ μ × Bool :=
  let combos := (app.toolRegistry.tools.lookup origName).getD []
  match boundNames plugins origName tool combos with
  | none => (app, false)
  | some names => app.bindTools owner origName tool names

/-- The loop of `mcp_tools` over the names it includes: one that a registered preset owns is
skipped. -/
def bindMcpTools (plugins : Plugins ε υ) (title : String) :
    List String → TaiMCP ε υ μ → TaiMCP ε υ μ × Bool
  | [], app => (app, true)
  | name :: names, app =>
    if name ∈ app.specs then bindMcpTools plugins title names app
    else
      match app.bindToolFunc plugins (some title) name .capability with
      | (app, true) => bindMcpTools plugins title names app
      | (app, false) => (app, false)

/-- `mcp_tools` -/
def mcpTools (plugins : Plugins ε υ) (title : String) (names : List String)
    (app : TaiMCP ε υ μ) : TaiMCP ε υ μ × Bool :=
  bindMcpTools plugins title names
    { app with mcpBoundTools := app.mcpBoundTools.insert title [] }

/-- The names whose base a bind records: it stops at the first that is taken. -/
def reached (live : Dict Tool) : List String → List String
  | [] => []
  | name :: names => if name ∈ live then [name] else name :: reached live names

/-! ## What a bind leaves -/

theorem layers_ne {plugins : Plugins ε υ} {origName currName : String} {tool : Tool}
    {extensions : List ε} {names : List String}
    (h : layers plugins origName tool extensions currName = some names) : origName ∉ names := by
  induction extensions generalizing currName names with
  | nil =>
    obtain rfl := Option.some.inj h
    exact List.not_mem_nil
  | cons extension extensions ih =>
    unfold layers at h
    split at h
    · cases h
    · next name _ =>
      split_ifs at h with hne
      obtain ⟨rest, hrest, rfl⟩ := Option.map_eq_some_iff.mp h
      rw [List.mem_cons, not_or]
      exact ⟨fun heq => hne heq.symm, ih hrest⟩

theorem mem_mapM {α β : Type} {f : α → Option β} {l : List α} {results : List β} {b : β}
    (h : l.mapM f = some results) (hb : b ∈ results) : ∃ a ∈ l, f a = some b := by
  induction l generalizing results with
  | nil =>
    obtain rfl := Option.some.inj h
    cases hb
  | cons a l ih =>
    rw [List.mapM_cons] at h
    obtain ⟨first, hfirst, h⟩ := Option.bind_eq_some_iff.mp h
    obtain ⟨rest, hrest, h⟩ := Option.bind_eq_some_iff.mp h
    obtain rfl := Option.some.inj h
    rcases List.mem_cons.mp hb with rfl | hb
    · exact ⟨a, List.mem_cons_self, hfirst⟩
    · obtain ⟨a', hmem, ha'⟩ := ih hrest hb
      exact ⟨a', List.mem_cons_of_mem _ hmem, ha'⟩

/-- The branches come before their base, each name once. -/
theorem boundNames_nodup {plugins : Plugins ε υ} {origName : String} {tool : Tool}
    {combos : List (List ε)} {names : List String}
    (h : boundNames plugins origName tool combos = some names) :
    names.Nodup ∧ origName ∈ names := by
  obtain ⟨results, hresults, rfl⟩ := Option.map_eq_some_iff.mp h
  refine ⟨?_, List.mem_append_right _ (List.mem_singleton_self origName)⟩
  rw [List.nodup_append]
  refine ⟨List.nodup_reverse.mpr (List.nodup_dedup _), List.nodup_singleton _, ?_⟩
  intro x hx y hy heq
  obtain rfl := List.mem_singleton.mp hy
  subst heq
  rw [List.mem_reverse, List.mem_dedup, List.mem_reverse, List.mem_flatten] at hx
  obtain ⟨layer, hlayer, hx⟩ := hx
  obtain ⟨extensions, -, hextensions⟩ := mem_mapM hresults hlayer
  exact layers_ne hextensions hx

theorem reached_subset {live : Dict Tool} {names : List String} {x : String}
    (h : x ∈ reached live names) : x ∈ names := by
  induction names with
  | nil => exact h
  | cons name names ih =>
    unfold reached at h
    split_ifs at h
    · obtain rfl := List.mem_singleton.mp h
      exact List.mem_cons_self
    · rcases List.mem_cons.mp h with rfl | h
      · exact List.mem_cons_self
      · exact List.mem_cons_of_mem _ (ih h)

theorem reached_of_fresh {live : Dict Tool} {names : List String}
    (h : ∀ x ∈ names, x ∉ live) : reached live names = names := by
  induction names with
  | nil => rfl
  | cons name names ih =>
    unfold reached
    rw [if_neg (h name List.mem_cons_self), ih fun x hx => h x (List.mem_cons_of_mem _ hx)]

theorem reached_insert {live : Dict Tool} {names : List String} {name : String} {tool : Tool}
    (h : name ∉ names) : reached (live.insert name tool) names = reached live names := by
  induction names with
  | nil => rfl
  | cons x names ih =>
    rw [List.mem_cons, not_or] at h
    obtain ⟨hne, hmem⟩ := h
    unfold reached
    rw [ih hmem]
    have hiff : x ∈ live.insert name tool ↔ x ∈ live := by
      rw [AList.mem_insert]
      exact or_iff_right fun heq => hne heq.symm
    simp only [hiff]

/-- What a bind of some names under a base leaves: each name that it reached has the base for its
own, a tool that it added is the base's or a branch of it, and nothing else is changed. -/
structure Binds (app app' : TaiMCP ε υ μ) (origName : String) (tool : Tool)
    (names : List String) : Prop where
  specs : app'.specs = app.specs
  operations : app'.operations = app.operations
  serverCache : app'.serverCache = app.serverCache
  tools : app'.toolRegistry.tools = app.toolRegistry.tools
  base : ∀ x, app'.toolRegistry.extendTools.lookup x =
    if x ∈ reached app.live names then some origName else app.toolRegistry.extendTools.lookup x
  live : ∀ x, app'.live.lookup x = app.live.lookup x ∨
    x ∈ reached app.live names ∧ x ∉ app.live ∧
      app'.live.lookup x = some (layerOf origName tool x)

section

variable {app app' : TaiMCP ε υ μ} {owner : Option String} {origName currName : String}
  {tool : Tool} {names : List String}

theorem bindTool_taken (h : currName ∈ app.live) :
    app.bindTool owner currName origName tool =
      ({ app with toolRegistry := app.toolRegistry.registerExtendTool origName currName },
        false) :=
  if_pos h

/-- A name that is free is bound. -/
theorem bindTool_free (app : TaiMCP ε υ μ) (owner : Option String) (origName : String)
    (tool : Tool) (h : currName ∉ app.live) :
    ∃ app', app.bindTool owner currName origName tool = (app', true) ∧
      app'.live = app.live.insert currName tool ∧
      app'.toolRegistry = app.toolRegistry.registerExtendTool origName currName ∧
      app'.specs = app.specs ∧ app'.operations = app.operations ∧
      app'.serverCache = app.serverCache := by
  unfold bindTool
  simp only [if_neg h]
  cases owner with
  | none => exact ⟨_, rfl, rfl, rfl, rfl, rfl, rfl⟩
  | some title => exact ⟨_, rfl, rfl, rfl, rfl, rfl, rfl⟩

theorem Binds.refl (app : TaiMCP ε υ μ) (origName : String) (tool : Tool) :
    Binds app app origName tool [] :=
  ⟨rfl, rfl, rfl, rfl, fun _ => (if_neg List.not_mem_nil).symm, fun _ => .inl rfl⟩

theorem bindTools_binds (owner : Option String) (origName : String) (tool : Tool)
    (hnodup : names.Nodup) (app : TaiMCP ε υ μ) :
    Binds app (app.bindTools owner origName tool names).1 origName tool names := by
  induction names generalizing app with
  | nil => exact .refl app origName tool
  | cons name names ih =>
    obtain ⟨hname, hnodup⟩ := List.nodup_cons.mp hnodup
    by_cases htaken : name ∈ app.live
    · unfold bindTools
      rw [bindTool_taken htaken]
      refine ⟨rfl, rfl, rfl, rfl, fun x => ?_, fun _ => .inl rfl⟩
      show (app.toolRegistry.extendTools.insert name origName).lookup x = _
      unfold reached
      rw [if_pos htaken]
      by_cases hx : x = name
      · subst hx
        simp
      · simp [hx, AList.lookup_insert_ne hx]
    · obtain ⟨app₁, hbind, hlive, hregistry, hspecs, hoperations, hcache⟩ :=
        app.bindTool_free owner origName (layerOf origName tool name) htaken
      unfold bindTools
      rw [hbind]
      have hrest := ih hnodup app₁
      have hreached : reached app.live (name :: names) = name :: reached app₁.live names := by
        rw [hlive, reached_insert hname]
        exact if_neg htaken
      refine ⟨hrest.specs.trans hspecs, hrest.operations.trans hoperations,
        hrest.serverCache.trans hcache, hrest.tools.trans (by rw [hregistry]; rfl), ?_, ?_⟩
      · intro x
        rw [hreached]
        refine (hrest.base x).trans ?_
        rw [hregistry]
        show (if _ then _ else (app.toolRegistry.extendTools.insert name origName).lookup x) = _
        by_cases hx : x = name
        · subst hx
          simp
        · simp [hx, AList.lookup_insert_ne hx]
      · intro x
        rw [hreached]
        rcases hrest.live x with hlookup | ⟨hmem, hfresh, hlookup⟩
        · by_cases hx : x = name
          · subst hx
            refine .inr ⟨List.mem_cons_self, htaken, hlookup.trans ?_⟩
            rw [hlive]
            exact AList.lookup_insert _
          · refine .inl (hlookup.trans ?_)
            rw [hlive]
            exact AList.lookup_insert_ne hx
        · refine .inr ⟨List.mem_cons_of_mem _ hmem, fun hx => hfresh ?_, hlookup⟩
          rw [hlive]
          exact (AList.mem_insert _).mpr (.inr hx)

/-- A bind succeeds where all its names are free. -/
theorem bindTools_ok (owner : Option String) (origName : String) (tool : Tool)
    (hnodup : names.Nodup) (app : TaiMCP ε υ μ) :
    (app.bindTools owner origName tool names).2 = true ↔ ∀ x ∈ names, x ∉ app.live := by
  induction names generalizing app with
  | nil => exact iff_of_true rfl fun x hx => absurd hx List.not_mem_nil
  | cons name names ih =>
    obtain ⟨hname, hnodup⟩ := List.nodup_cons.mp hnodup
    rw [List.forall_mem_cons]
    by_cases htaken : name ∈ app.live
    · unfold bindTools
      rw [bindTool_taken htaken]
      exact iff_of_false Bool.false_ne_true fun h => h.1 htaken
    · obtain ⟨app₁, hbind, hlive, -⟩ :=
        app.bindTool_free owner origName (layerOf origName tool name) htaken
      unfold bindTools
      rw [hbind]
      refine (ih hnodup app₁).trans ?_
      rw [hlive, and_iff_right htaken]
      refine forall₂_congr fun x hx => not_congr ?_
      rw [AList.mem_insert]
      exact or_iff_right fun heq => hname (heq ▸ hx)

/-- The names that `bind_tool_func` is to bind in an app. -/
def toBind (plugins : Plugins ε υ) (app : TaiMCP ε υ μ) (origName : String) (tool : Tool) :
    Option (List String) :=
  boundNames plugins origName tool ((app.toolRegistry.tools.lookup origName).getD [])

theorem bindToolFunc_none {plugins : Plugins ε υ} (h : app.toBind plugins origName tool = none) :
    app.bindToolFunc plugins owner origName tool = (app, false) := by
  unfold bindToolFunc
  unfold toBind at h
  simp only [h]

theorem bindToolFunc_some {plugins : Plugins ε υ}
    (h : app.toBind plugins origName tool = some names) :
    app.bindToolFunc plugins owner origName tool = app.bindTools owner origName tool names := by
  unfold bindToolFunc
  unfold toBind at h
  simp only [h]

/-- `bind_tool_func` succeeds where its names can be made and all are free. -/
theorem bindToolFunc_ok {plugins : Plugins ε υ} :
    (app.bindToolFunc plugins owner origName tool).2 = true ↔
      ∃ names, app.toBind plugins origName tool = some names ∧ ∀ x ∈ names, x ∉ app.live := by
  cases hnames : app.toBind plugins origName tool with
  | none =>
    rw [bindToolFunc_none hnames]
    simp
  | some names =>
    obtain ⟨hnodup, -⟩ := boundNames_nodup hnames
    rw [bindToolFunc_some hnames, bindTools_ok owner origName tool hnodup app]
    simp

theorem operations_bindToolFunc (plugins : Plugins ε υ) (owner : Option String)
    (origName : String) (tool : Tool) (app : TaiMCP ε υ μ) :
    (app.bindToolFunc plugins owner origName tool).1.operations = app.operations := by
  cases hnames : app.toBind plugins origName tool with
  | none => rw [bindToolFunc_none hnames]
  | some names =>
    rw [bindToolFunc_some hnames]
    exact (bindTools_binds owner origName tool (boundNames_nodup hnames).1 app).operations

end

end TaiMCP

end TaiSkeleton.Tools
