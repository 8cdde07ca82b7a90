import TaiSkeleton.App.Lifecycle

/-!
# Tools linked as they were made

A dispatchable tool that an operation is the body of is linked when the maps lead from its name,
through the names it was made over, to the operation. What each operation on the maps does to the
tools that are linked is said here once.
-/

namespace TaiSkeleton.Tools

open Lib

namespace TaiMCP

variable {ε υ μ : Type}

/-- A tool object that a cached sub-MCP app holds. -/
def Cached (app : TaiMCP ε υ μ) (name : String) (tool : Tool) : Prop :=
  ∃ slug tools, app.serverCache.lookup slug = some (some tools) ∧ tools.lookup name = some tool

/-- A tool that a request can reach on a server with the tool-edge authorization. -/
def Dispatchable (app : TaiMCP ε υ μ) (name : String) (tool : Tool) : Prop :=
  app.live.lookup name = some tool ∨ app.Cached name tool

/-- A tool that stays dispatchable when some names go from the main server. -/
def Stays (app : TaiMCP ε υ μ) (gone : String → Prop) (name : String) (tool : Tool) : Prop :=
  app.live.lookup name = some tool ∧ ¬gone name ∨ app.Cached name tool

/-- The maps lead from a tool's name through those it was made over to a registered operation. -/
def LedTo (app : TaiMCP ε υ μ) (name : String) (tool : Tool) (op : String) : Prop :=
  Leads app.next name (tool.names name) op ∧ op ∈ app.operations

/-- Each tool that stays and that an operation is the body of is led to it. -/
def Linked (app : TaiMCP ε υ μ) (gone : String → Prop) : Prop :=
  ∀ name tool op, app.Stays gone name tool → tool.operation? = some op → app.LedTo name tool op

/-- No tool that stays and that a registered operation is the body of was made over a name that is
touched. -/
def Spares (app : TaiMCP ε υ μ) (gone touched : String → Prop) : Prop :=
  ∀ name tool op, app.Stays gone name tool → tool.operation? = some op → op ∈ app.operations →
    ∀ x ∈ tool.names name, ¬touched x

/-! ## Frames -/

section

variable {app app' : TaiMCP ε υ μ} {gone gone' stay touched touched' : String → Prop}
  {name op : String} {tool : Tool}

theorem Stays.mono (h : app.Stays gone name tool) (hgone : ∀ x, gone' x → gone x) :
    app.Stays gone' name tool :=
  h.imp_left (And.imp_right fun hnot hx => hnot (hgone name hx))

/-- What is spared with all tools in place is spared with some of them gone. -/
theorem Spares.of_all (h : app.Spares (fun _ => False) touched) : app.Spares gone touched :=
  fun name tool op hstays => h name tool op (hstays.mono fun _ => False.elim)

/-- There is nothing to spare where no server has a tool. -/
theorem Spares.of_empty (hlive : app.live.keys = []) (hcache : app.serverCache.keys = []) :
    app.Spares gone touched := by
  rintro name tool op (⟨hlookup, -⟩ | ⟨slug, tools, hlookup, -⟩)
  · have hmem := AList.mem_keys.mp (AList.lookup_isSome.mp (Option.isSome_of_eq_some hlookup))
    rw [hlive] at hmem
    cases hmem
  · have hmem := AList.mem_keys.mp (AList.lookup_isSome.mp (Option.isSome_of_eq_some hlookup))
    rw [hcache] at hmem
    cases hmem

/-- Where a step keeps the links of all names but those it touches, the tools that it keeps stay
linked if they were not made over one of these. -/
theorem Linked.of_touched (h : app.Linked gone) (hspares : app.Spares stay touched)
    (hstays : ∀ name tool op, app'.Stays gone' name tool → tool.operation? = some op →
      app.Stays gone name tool ∧ app.Stays stay name tool ∨ app'.LedTo name tool op)
    (hnext : ∀ x, ¬touched x → app'.next x = app.next x)
    (hoperations : ∀ op, op ∈ app.operations → op ∈ app'.operations) : app'.Linked gone' := by
  intro name tool op hstay hop
  rcases hstays name tool op hstay hop with ⟨hgone, hkept⟩ | hled
  · obtain ⟨hleads, hmem⟩ := h name tool op hgone hop
    refine ⟨hleads.congr fun x hx => hnext x ?_, hoperations op hmem⟩
    exact hspares name tool op hkept hop hmem x hx
  · exact hled

/-- A step that only drops tools, or none, leaves the rest linked. -/
theorem Linked.frame (h : app.Linked gone)
    (hstays : ∀ name tool, app'.Stays gone' name tool → app.Stays gone name tool)
    (hspecs : app'.specs = app.specs)
    (hbase : app'.toolRegistry.extendTools = app.toolRegistry.extendTools)
    (hoperations : ∀ op, op ∈ app.operations → op ∈ app'.operations) : app'.Linked gone' := by
  have hspares : app.Spares gone fun _ => False := fun _ _ _ _ _ _ _ _ => id
  refine h.of_touched hspares ?_ ?_ hoperations
  · exact fun name tool op hstay _ => .inl ⟨hstays name tool hstay, hstays name tool hstay⟩
  · exact fun x _ => next_congr (by rw [hspecs]) (by rw [hbase])

/-- Where the tools of the main server no longer count, the cached sub-MCP apps stay linked. -/
theorem Linked.cached (h : app.Linked fun _ => False) : app.Linked fun _ => True :=
  h.frame (fun _ _ hstay => hstay.mono fun _ => False.elim) rfl rfl fun _ => id

/-- A record more in the operation registry changes no link. -/
theorem Linked.declareOperation (h : app.Linked gone) (name : String) (metadata : μ) :
    (app.declareOperation name metadata).Linked gone := by
  unfold TaiMCP.declareOperation
  split_ifs
  · exact h
  · exact h.frame (fun _ _ => id) rfl rfl fun op hmem => (AList.mem_insert _).mpr (.inr hmem)

/-- The end of a rebuild changes no link. -/
theorem Linked.rebuilt (h : app.Linked gone) : app.rebuilt.Linked gone :=
  h.frame (fun _ _ => id) rfl rfl fun _ => id

end

/-! ## Binding an operation -/

section

variable {app app' : TaiMCP ε υ μ} {gone : String → Prop} {names : List String}
  {origName op x : String} {tool tool' : Tool} {plugins : Plugins ε υ}

@[simp] theorem operation?_layerOf (origName : String) (tool : Tool) (x : String) :
    (layerOf origName tool x).operation? = tool.operation? := by
  unfold layerOf
  split_ifs <;> rfl

/-- The branches of a tool that is led to its operation are led there too. -/
theorem LedTo.layerOf (h : app.LedTo origName tool op)
    (hspec : x ≠ origName → x ∉ app.specs)
    (hbase : app.toolRegistry.extendTools.lookup x = some origName) :
    app.LedTo x (layerOf origName tool x) op := by
  unfold TaiMCP.layerOf
  by_cases hx : x = origName
  · rw [if_pos hx, hx]
    exact h
  · rw [if_neg hx]
    exact ⟨.link (next_of_branch (hspec hx) hbase (Ne.symm hx)) h.1, h.2⟩

/-- A tool that a bind has added has the name of the base for its own. -/
theorem Binds.added (h : Binds app app' origName tool names)
    (hlookup : app'.live.lookup x = some tool') :
    app.live.lookup x = some tool' ∨
      x ∈ reached app.live names ∧ tool' = layerOf origName tool x := by
  rcases h.live x with hsame | ⟨hmem, -, hnew⟩
  · exact .inl (hsame.symm.trans hlookup)
  · exact .inr ⟨hmem, Option.some.inj (hlookup.symm.trans hnew)⟩

/-- An operation is projected under names that nothing else has. -/
theorem Linked.project (h : app.Linked gone) (hop : op ∈ app.operations)
    (hnames : app.toBind plugins op (.operation op) = some names)
    (hfree : ∀ x ∈ names, x ∉ app.live) (hspecs : ∀ x ∈ names, x ∉ app.specs)
    (hspares : app.Spares gone (· ∈ names)) :
    (app.bindToolFunc plugins none op (.operation op)).1.Linked gone := by
  obtain ⟨hnodup, hmem⟩ := boundNames_nodup hnames
  rw [bindToolFunc_some hnames]
  have hbinds := bindTools_binds none op (.operation op) hnodup app
  generalize (app.bindTools none op (.operation op) names).1 = app' at hbinds ⊢
  have hreached : reached app.live names = names := reached_of_fresh hfree
  have hbase : ∀ x ∈ names, app'.toolRegistry.extendTools.lookup x = some op := by
    intro x hx
    rw [hbinds.base x, hreached, if_pos hx]
  have hfresh : ∀ x ∈ names, x ∉ app'.specs := by
    rw [hbinds.specs]
    exact hspecs
  have hled : app'.LedTo op (.operation op) op := by
    refine ⟨.ends (next_eq_none.mpr ⟨hfresh op hmem, ?_⟩), hbinds.operations ▸ hop⟩
    unfold ToolRegistry.baseOf
    rw [hbase op hmem]
    rfl
  refine h.of_touched hspares ?_ ?_ fun op hmem => hbinds.operations ▸ hmem
  · intro x tool op' hstay hop'
    rcases hstay with ⟨hlive, hgone⟩ | hcached
    · rcases hbinds.added hlive with hold | ⟨hx, rfl⟩
      · exact .inl ⟨.inl ⟨hold, hgone⟩, .inl ⟨hold, hgone⟩⟩
      · rw [hreached] at hx
        rw [operation?_layerOf] at hop'
        obtain rfl := Option.some.inj hop'
        exact .inr (hled.layerOf (fun _ => hfresh x hx) (hbase x hx))
    · unfold Cached at hcached
      rw [hbinds.serverCache] at hcached
      exact .inl ⟨.inr hcached, .inr hcached⟩
  · intro x hx
    refine next_congr (by rw [hbinds.specs]) ?_
    rw [hbinds.base x, hreached, if_neg hx]

/-- A bind that raises out of `start` leaves the cached sub-MCP apps. -/
theorem Linked.projectFails (h : app.Linked gone)
    (hspares : ∀ names, app.toBind plugins op (.operation op) = some names →
      app.Spares (fun _ => True) (· ∈ reached app.live names)) :
    (app.bindToolFunc plugins none op (.operation op)).1.Linked fun _ => True := by
  cases hnames : app.toBind plugins op (.operation op) with
  | none =>
    rw [bindToolFunc_none hnames]
    refine h.frame ?_ rfl rfl fun _ => id
    exact fun name tool hstay => .inr (hstay.resolve_left fun hlive => hlive.2 trivial)
  | some names =>
    obtain ⟨hnodup, -⟩ := boundNames_nodup hnames
    rw [bindToolFunc_some hnames]
    have hbinds := bindTools_binds none op (.operation op) hnodup app
    refine h.of_touched (hspares names hnames) ?_ ?_ fun op hmem => hbinds.operations ▸ hmem
    · intro x tool op' hstay _
      have hcached := hstay.resolve_left fun hlive => hlive.2 trivial
      unfold Cached at hcached
      rw [hbinds.serverCache] at hcached
      exact .inl ⟨.inr hcached, .inr hcached⟩
    · intro x hx
      exact next_congr (by rw [hbinds.specs]) ((hbinds.base x).trans (if_neg hx))

end

/-! ## Tearing a preset down -/

/-- The names that `_remove_registration` takes away: a tool's own and those of its branches. -/
def Torn (app : TaiMCP ε υ μ) (name : String) (x : String) : Prop :=
  x = name ∨ x ∈ app.toolRegistry.branches name

section

variable {app : TaiMCP ε υ μ} {gone : String → Prop} {name x : String} {tool : Tool}

theorem live_removeRegistration
    (h : (app.removeRegistration name).live.lookup x = some tool) :
    ¬app.Torn name x ∧ app.live.lookup x = some tool := by
  unfold removeRegistration at h
  have hname : x ≠ name := by
    rintro rfl
    simp at h
  rw [AList.lookup_erase_ne hname, ToolRegistry.lookup_foldl_erase] at h
  obtain ⟨hbranch, hlive⟩ := Option.ite_none_left_eq_some.mp h
  exact ⟨fun htorn => htorn.elim hname hbranch, hlive⟩

theorem next_removeRegistration (h : ¬app.Torn name x) :
    (app.removeRegistration name).next x = app.next x := by
  refine next_congr (AList.lookup_erase_ne fun hx => h (.inl hx)) ?_
  exact (ToolRegistry.lookup_unregisterToolBase app.toolRegistry name x).trans (if_neg h)

/-- A preset is torn down under no other tool. -/
theorem Linked.removeRegistration (h : app.Linked gone)
    (hspares : app.Spares (app.Torn name) (app.Torn name)) :
    (app.removeRegistration name).Linked gone := by
  refine h.of_touched hspares ?_ (fun x => next_removeRegistration) fun _ => id
  rintro x tool op (⟨hlive, hgone⟩ | hcached) -
  · obtain ⟨htorn, hlive⟩ := live_removeRegistration hlive
    exact .inl ⟨.inl ⟨hlive, hgone⟩, .inl ⟨hlive, htorn⟩⟩
  · exact .inl ⟨.inr hcached, .inr hcached⟩

end

/-! ## Registering a preset -/

/-- The names that a preset's tool is to be bound under. -/
def presetNames (plugins : Plugins ε υ) (name : String) (body : PresetBody ε υ) (base : Tool) :
    Option (List String) :=
  boundNames plugins name (.over body.baseTool base) ([] :: body.extensions)

/-- Where a preset binds, no tool was made over one of its names, and no spec has one of those
under which an operation is bound; where it is torn down again, no other tool was made over a name
that goes with it. -/
def RegisterSpares (plugins : Plugins ε υ) (name : String) (body : PresetBody ε υ)
    (app : TaiMCP ε υ μ) : Prop :=
  ∀ base, app.presetBase plugins name body = some base →
    match presetNames plugins name body base with
    | none => app.Spares (app.Torn name) (app.Torn name)
    | some names =>
      if ∀ x ∈ names, x ∉ app.live then
        app.Spares (fun _ => False) (· ∈ names) ∧
          ∀ op, base.operation? = some op → op ∈ app.operations → ∀ x ∈ names, x ∉ app.specs
      else
        let torn := fun x => app.Torn name x ∨ x ∈ reached app.live names
        app.Spares torn torn

section

variable {app app' : TaiMCP ε υ μ} {down : Prop} {names : List String} {name x : String}
  {base tool : Tool} {body : PresetBody ε υ} {plugins : Plugins ε υ}

theorem presetBase_eq_some (h : app.presetBase plugins name body = some base) :
    name ∉ app.specs ∧ name ∉ app.live ∧ app.live.lookup body.baseTool = some base := by
  unfold presetBase at h
  obtain ⟨hfree, hbase⟩ := Option.ite_none_left_eq_some.mp h
  rw [not_or] at hfree
  exact ⟨hfree.1, hfree.2, (Option.filter_eq_some_iff.mp hbase).1⟩

/-- A preset is bound over the tool that its base is. -/
theorem Linked.bindPreset (h : app.Linked fun _ => down)
    (hbinds : Binds app app' name (.over body.baseTool base) names) (hmem : name ∈ names)
    (hfree : ∀ x ∈ names, x ∉ app.live) (hbase : app.live.lookup body.baseTool = some base)
    (hspares : app.Spares (fun _ => False) (· ∈ names))
    (hspecs : ∀ op, base.operation? = some op → op ∈ app.operations →
      ∀ x ∈ names, x ∉ app.specs) :
    ({ app' with specs := app'.specs.insert name body } : TaiMCP ε υ μ).Linked
      fun _ => down := by
  have hreached : reached app.live names = names := reached_of_fresh hfree
  have hnext : ∀ x, x ∉ names →
      ({ app' with specs := app'.specs.insert name body } : TaiMCP ε υ μ).next x = app.next x := by
    intro x hx
    refine next_congr ?_ ?_
    · show (app'.specs.insert name body).lookup x = _
      rw [AList.lookup_insert_ne fun heq : x = name => hx (heq ▸ hmem), hbinds.specs]
    · exact (hbinds.base x).trans (by rw [hreached, if_neg hx])
  refine h.of_touched hspares ?_ hnext fun op hmem => hbinds.operations ▸ hmem
  intro x tool op hstay hop
  rcases hstay with ⟨hlive, hgone⟩ | hcached
  · rcases hbinds.added hlive with hold | ⟨hx, rfl⟩
    · exact .inl ⟨.inl ⟨hold, hgone⟩, .inl ⟨hold, not_false⟩⟩
    · rw [hreached] at hx
      rw [operation?_layerOf] at hop
      obtain ⟨hleads, hop'⟩ := h body.baseTool base op (.inl ⟨hbase, hgone⟩) hop
      have hclear := hspares body.baseTool base op (.inl ⟨hbase, not_false⟩) hop hop'
      right
      refine LedTo.layerOf ⟨.link (next_of_spec (AList.lookup_insert _)) ?_, ?_⟩ ?_ ?_
      · exact hleads.congr fun y hy => hnext y (hclear y hy)
      · exact hbinds.operations ▸ hop'
      · intro hne hspec
        rcases (AList.mem_insert _).mp hspec with rfl | hspec
        · exact hne rfl
        · rw [hbinds.specs] at hspec
          exact hspecs op hop hop' x hx hspec
      · exact (hbinds.base x).trans (by rw [hreached, if_pos hx])
  · unfold Cached at hcached
    rw [show ({ app' with specs := app'.specs.insert name body } : TaiMCP ε υ μ).serverCache =
      app.serverCache from hbinds.serverCache] at hcached
    exact .inl ⟨.inr hcached, .inr hcached⟩

/-- A bind that raises is torn down again, with what else its names stood for. -/
theorem Linked.bindTornDown {gone : String → Prop} (h : app.Linked gone)
    (hbinds : Binds app app' name tool names)
    (hspares : app.Spares (fun x => app.Torn name x ∨ x ∈ reached app.live names)
      fun x => app.Torn name x ∨ x ∈ reached app.live names) :
    (app'.removeRegistration name).Linked gone := by
  have htorn : ∀ x, app'.Torn name x ↔ app.Torn name x ∨ x ∈ reached app.live names := by
    intro x
    unfold Torn
    rw [ToolRegistry.mem_branches, ToolRegistry.mem_branches, hbinds.base x]
    by_cases hx : x ∈ reached app.live names
    · simp only [hx, if_true]
      tauto
    · simp only [hx, if_false]
      tauto
  refine h.of_touched hspares ?_ ?_ fun op hmem => hbinds.operations ▸ hmem
  · rintro x tool op (⟨hlive, hgone⟩ | hcached) -
    · obtain ⟨hnot, hlive⟩ := live_removeRegistration hlive
      rw [htorn] at hnot
      have hold := (hbinds.added hlive).resolve_right fun hnew => hnot (.inr hnew.1)
      exact .inl ⟨.inl ⟨hold, hgone⟩, .inl ⟨hold, hnot⟩⟩
    · unfold Cached at hcached
      rw [show (app'.removeRegistration name).serverCache = app.serverCache from
        hbinds.serverCache] at hcached
      exact .inl ⟨.inr hcached, .inr hcached⟩
  · intro x hx
    rw [next_removeRegistration (mt (htorn x).mp hx)]
    rw [not_or] at hx
    exact next_congr (by rw [hbinds.specs]) ((hbinds.base x).trans (if_neg hx.2))

variable [DecidableEq ε]

/-- The ways that a registration ends: it is refused; no name can be made for a branch; the preset
is bound under its names; or one of them was taken, and the preset is torn down again. -/
inductive Registration (plugins : Plugins ε υ) (name : String) (body : PresetBody ε υ)
    (app : TaiMCP ε υ μ) : TaiMCP ε υ μ → Prop where
  | refused (hbase : app.presetBase plugins name body = none) :
      Registration plugins name body app app
  | unnamed {base : Tool} {toolRegistry : ToolRegistry ε}
      (hbase : app.presetBase plugins name body = some base)
      (hextend : toolRegistry.extendTools = app.toolRegistry.extendTools)
      (hnames : presetNames plugins name body base = none) :
      Registration plugins name body app (removeRegistration name { app with toolRegistry })
  | bound {base : Tool} {toolRegistry : ToolRegistry ε} {names : List String}
      {app' : TaiMCP ε υ μ} (hbase : app.presetBase plugins name body = some base)
      (hextend : toolRegistry.extendTools = app.toolRegistry.extendTools)
      (hnames : presetNames plugins name body base = some names)
      (hfree : ∀ x ∈ names, x ∉ app.live)
      (hbinds : Binds { app with toolRegistry } app' name (.over body.baseTool base) names) :
      Registration plugins name body app { app' with specs := app'.specs.insert name body }
  | tornDown {base : Tool} {toolRegistry : ToolRegistry ε} {names : List String}
      {app' : TaiMCP ε υ μ} (hbase : app.presetBase plugins name body = some base)
      (hextend : toolRegistry.extendTools = app.toolRegistry.extendTools)
      (hnames : presetNames plugins name body base = some names)
      (htaken : ¬∀ x ∈ names, x ∉ app.live)
      (hbinds : Binds { app with toolRegistry } app' name (.over body.baseTool base) names) :
      Registration plugins name body app (app'.removeRegistration name)

theorem registration_register (plugins : Plugins ε υ) (name : String) (body : PresetBody ε υ)
    (app : TaiMCP ε υ μ) :
    Registration plugins name body app (app.register plugins name body).1 := by
  unfold TaiMCP.register
  cases hbase : app.presetBase plugins name body with
  | none => exact .refused hbase
  | some base =>
    obtain ⟨toolRegistry, hregistry, hextend, htools⟩ :=
      app.toolRegistry.registerTool_unregisterTool name body.extensions
    show Registration plugins name body app (app.bindPreset plugins name body base).1
    unfold TaiMCP.bindPreset
    simp only [hregistry]
    have hnames : ({ app with toolRegistry } : TaiMCP ε υ μ).toBind plugins name
        (.over body.baseTool base) = presetNames plugins name body base := by
      unfold toBind presetNames
      rw [show ({ app with toolRegistry } : TaiMCP ε υ μ).toolRegistry.tools.lookup name = _ from
        htools]
      rfl
    cases hbound : presetNames plugins name body base with
    | none =>
      rw [hbound] at hnames
      rw [bindToolFunc_none hnames]
      exact .unnamed hbase hextend hbound
    | some names =>
      rw [hbound] at hnames
      rw [bindToolFunc_some hnames]
      obtain ⟨hnodup, -⟩ := boundNames_nodup hbound
      have hok := bindTools_ok none name (.over body.baseTool base) hnodup
        { app with toolRegistry }
      have hbinds := bindTools_binds none name (.over body.baseTool base) hnodup
        { app with toolRegistry }
      generalize bindTools none name (.over body.baseTool base) names { app with toolRegistry } =
        result at hok hbinds ⊢
      obtain ⟨app', ok⟩ := result
      cases ok with
      | true => exact .bound hbase hextend hbound (hok.mp rfl) hbinds
      | false => exact .tornDown hbase hextend hbound (mt hok.mpr Bool.false_ne_true) hbinds

theorem Linked.register (h : app.Linked fun _ => down)
    (hspares : app.RegisterSpares plugins name body) :
    (app.register plugins name body).1.Linked fun _ => down := by
  have hregistration := registration_register plugins name body app
  generalize (app.register plugins name body).1 = result at hregistration ⊢
  -- Seeding the combos of the preset changes neither the links nor what goes with its name.
  have hseeded : ∀ toolRegistry : ToolRegistry ε,
      toolRegistry.extendTools = app.toolRegistry.extendTools →
      (({ app with toolRegistry } : TaiMCP ε υ μ).Linked fun _ => down) ∧
        ({ app with toolRegistry } : TaiMCP ε υ μ).Torn name = app.Torn name := by
    intro toolRegistry hextend
    refine ⟨h.frame (fun _ _ => id) rfl hextend fun _ => id, ?_⟩
    unfold Torn ToolRegistry.branches
    rw [hextend]
  cases hregistration with
  | refused _ => exact h
  | unnamed hbase hextend hnames =>
    obtain ⟨hlinked, htorn⟩ := hseeded _ hextend
    have hspares := hspares _ hbase
    rw [hnames] at hspares
    refine hlinked.removeRegistration ?_
    rw [htorn]
    exact hspares
  | bound hbase hextend hnames hfree hbinds =>
    have hspares := hspares _ hbase
    rw [hnames] at hspares
    simp only [if_pos hfree] at hspares
    obtain ⟨-, hmem⟩ := boundNames_nodup hnames
    obtain ⟨-, -, hlive⟩ := presetBase_eq_some hbase
    exact (hseeded _ hextend).1.bindPreset hbinds hmem hfree hlive hspares.1 hspares.2
  | tornDown hbase hextend hnames htaken hbinds =>
    obtain ⟨hlinked, htorn⟩ := hseeded _ hextend
    have hspares := hspares _ hbase
    rw [hnames] at hspares
    simp only [if_neg htaken] at hspares
    refine hlinked.bindTornDown hbinds ?_
    rw [htorn]
    exact hspares

end

/-! ## Binding other functions -/

/-- What a step that binds functions which are no operation may do: the bases of the names it
touches change, and the tools it adds have no operation for a body. -/
structure AddsOthers (app app' : TaiMCP ε υ μ) (touched : String → Prop) : Prop where
  specs : app'.specs = app.specs
  operations : app'.operations = app.operations
  serverCache : app'.serverCache = app.serverCache
  tools : app'.toolRegistry.tools = app.toolRegistry.tools
  base : ∀ x, ¬touched x →
    app'.toolRegistry.extendTools.lookup x = app.toolRegistry.extendTools.lookup x
  live : ∀ x tool, app'.live.lookup x = some tool →
    app.live.lookup x = some tool ∨ tool.operation? = none

section

variable {app app' app'' : TaiMCP ε υ μ} {gone stay touched touched' : String → Prop}
  {names : List String} {name title op : String} {tool : Tool} {plugins : Plugins ε υ}

theorem AddsOthers.refl (app : TaiMCP ε υ μ) (touched : String → Prop) :
    AddsOthers app app touched :=
  ⟨rfl, rfl, rfl, rfl, fun _ _ => rfl, fun _ _ => .inl⟩

theorem AddsOthers.mono (h : AddsOthers app app' touched)
    (htouched : ∀ x, touched x → touched' x) : AddsOthers app app' touched' :=
  { h with base := fun x hx => h.base x fun ht => hx (htouched x ht) }

theorem AddsOthers.trans (h : AddsOthers app app' touched) (h' : AddsOthers app' app'' touched) :
    AddsOthers app app'' touched where
  specs := h'.specs.trans h.specs
  operations := h'.operations.trans h.operations
  serverCache := h'.serverCache.trans h.serverCache
  tools := h'.tools.trans h.tools
  base x hx := (h'.base x hx).trans (h.base x hx)
  live x tool hlookup := (h'.live x tool hlookup).elim (h.live x tool) .inr

theorem AddsOthers.stays (h : AddsOthers app app' touched) (hstay : app'.Stays gone name tool)
    (hop : tool.operation? = some op) : app.Stays gone name tool := by
  rcases hstay with ⟨hlive, hgone⟩ | hcached
  · refine .inl ⟨(h.live name tool hlive).resolve_right fun hnone => ?_, hgone⟩
    rw [hnone] at hop
    cases hop
  · unfold Cached at hcached
    rw [h.serverCache] at hcached
    exact .inr hcached

theorem AddsOthers.next (h : AddsOthers app app' touched) {x : String} (hx : ¬touched x) :
    app'.next x = app.next x :=
  next_congr (by rw [h.specs]) (h.base x hx)

theorem Linked.addsOthers (hlinked : app.Linked gone) (h : AddsOthers app app' touched)
    (hspares : app.Spares gone touched) : app'.Linked gone := by
  refine hlinked.of_touched hspares ?_ (fun x => h.next) fun op hmem => h.operations ▸ hmem
  exact fun name tool op hstay hop => .inl ⟨h.stays hstay hop, h.stays hstay hop⟩

/-- A function that is no operation is bound. -/
theorem addsOthers_bindToolFunc (plugins : Plugins ε υ) (owner : Option String) (origName : String)
    (app : TaiMCP ε υ μ) :
    AddsOthers app (app.bindToolFunc plugins owner origName .capability).1
      (fun x => ∃ names, app.toBind plugins origName .capability = some names ∧
        x ∈ reached app.live names) := by
  cases hbind : app.toBind plugins origName .capability with
  | none =>
    rw [bindToolFunc_none hbind]
    exact .refl app _
  | some names =>
    rw [bindToolFunc_some hbind]
    obtain ⟨hnodup, -⟩ := boundNames_nodup hbind
    have hbinds := bindTools_binds owner origName .capability hnodup app
    refine ⟨hbinds.specs, hbinds.operations, hbinds.serverCache, hbinds.tools, ?_, ?_⟩
    · intro x hx
      refine (hbinds.base x).trans (if_neg fun hmem => hx ⟨names, rfl, hmem⟩)
    · intro x tool hlookup
      rcases hbinds.live x with hsame | ⟨-, -, hnew⟩
      · exact .inl (hsame.symm.trans hlookup)
      · obtain rfl := Option.some.inj (hnew.symm.trans hlookup)
        exact .inr (operation?_layerOf origName .capability x)

/-- The names that the tools of an MCP server bind. -/
def McpBinds (plugins : Plugins ε υ) (app : TaiMCP ε υ μ) (names : List String) (x : String) :
    Prop :=
  ∃ name ∈ names, name ∉ app.specs ∧
    ∃ bound, app.toBind plugins name .capability = some bound ∧ x ∈ bound

theorem McpBinds.of_addsOthers (h : AddsOthers app app' touched) {x : String}
    (hx : McpBinds plugins app' names x) : McpBinds plugins app names x := by
  unfold McpBinds toBind at hx
  rw [h.specs, h.tools] at hx
  exact hx

theorem addsOthers_bindMcpTools (plugins : Plugins ε υ) (title : String) (names : List String)
    (app : TaiMCP ε υ μ) :
    AddsOthers app (app.bindMcpTools plugins title names).1 (McpBinds plugins app names) := by
  induction names generalizing app with
  | nil => exact .refl app _
  | cons name names ih =>
    have hrest : ∀ x, McpBinds plugins app names x → McpBinds plugins app (name :: names) x := by
      rintro x ⟨n, hmem, hbinds⟩
      exact ⟨n, List.mem_cons_of_mem _ hmem, hbinds⟩
    unfold bindMcpTools
    split_ifs with hspec
    · exact (ih app).mono hrest
    · have hbind := addsOthers_bindToolFunc plugins (some title) name app
      generalize app.bindToolFunc plugins (some title) name .capability = bound at hbind ⊢
      obtain ⟨app₁, ok⟩ := bound
      have hfirst : AddsOthers app app₁ (McpBinds plugins app (name :: names)) := by
        refine hbind.mono ?_
        rintro x ⟨bound, hbound, hx⟩
        exact ⟨name, List.mem_cons_self, hspec, bound, hbound, reached_subset hx⟩
      cases ok with
      | false => exact hfirst
      | true => exact hfirst.trans ((ih app₁).mono fun x hx => hrest x (.of_addsOthers hfirst hx))

theorem addsOthers_mcpTools (plugins : Plugins ε υ) (title : String) (names : List String)
    (app : TaiMCP ε υ μ) :
    AddsOthers app (app.mcpTools plugins title names).1 (McpBinds plugins app names) :=
  have hbinds := addsOthers_bindMcpTools plugins title names
    { app with mcpBoundTools := app.mcpBoundTools.insert title [] }
  ⟨hbinds.specs, hbinds.operations, hbinds.serverCache, hbinds.tools, hbinds.base, hbinds.live⟩

end

/-! ## One MCP server -/

/-- The names that go with some base tools: their own and those of their branches. -/
def GoesWith (app : TaiMCP ε υ μ) (names : List String) (x : String) : Prop :=
  x ∈ names ∨ ∃ name ∈ names, app.toolRegistry.extendTools.lookup x = some name

section

variable {app : TaiMCP ε υ μ} {gone touched : String → Prop} {names : List String}
  {title x : String} {tool : Tool} {plugins : Plugins ε υ}

theorem lookup_unregisterTools (registry : ToolRegistry ε) (hmem : x ∉ names)
    (hbase : ∀ name ∈ names, registry.extendTools.lookup x ≠ some name) :
    (names.foldl (fun registry name => registry.unregisterToolBase name)
      registry).extendTools.lookup x = registry.extendTools.lookup x := by
  induction names generalizing registry with
  | nil => rfl
  | cons name names ih =>
    rw [List.mem_cons, not_or] at hmem
    have hfirst : (registry.unregisterToolBase name).extendTools.lookup x =
        registry.extendTools.lookup x := by
      rw [registry.lookup_unregisterToolBase name x]
      refine if_neg fun h => h.elim hmem.1 fun hbranch => ?_
      exact hbase name List.mem_cons_self (ToolRegistry.mem_branches.mp hbranch).1
    rw [List.foldl_cons, ih _ hmem.2, hfirst]
    intro n hn
    rw [hfirst]
    exact hbase n (List.mem_cons_of_mem _ hn)

theorem next_unregisterTools (h : ¬app.GoesWith names x) :
    (app.unregisterTools names).next x = app.next x := by
  unfold GoesWith at h
  push Not at h
  exact next_congr rfl (lookup_unregisterTools app.toolRegistry h.1 h.2)

theorem Stays.of_removeTools (h : (app.removeTools names).Stays gone x tool) :
    app.Stays gone x tool ∧ app.Stays (· ∈ names) x tool := by
  rcases h with ⟨hlive, hgone⟩ | hcached
  · unfold removeTools at hlive
    rw [ToolRegistry.lookup_foldl_erase] at hlive
    obtain ⟨hmem, hlive⟩ := Option.ite_none_left_eq_some.mp hlive
    exact ⟨.inl ⟨hlive, hgone⟩, .inl ⟨hlive, hmem⟩⟩
  · exact ⟨.inr hcached, .inr hcached⟩

/-- Tools go from the server and from the registry under no other tool. -/
theorem Linked.deregisterMcp (h : app.Linked gone)
    (hspares : app.Spares (· ∈ app.mcpBound title) (app.GoesWith (app.mcpBound title))) :
    (app.deregisterMcp title).1.Linked gone := by
  refine h.of_touched hspares ?_ (fun x hx => next_unregisterTools hx) fun _ => id
  intro name tool op hstay _
  exact .inl (Stays.of_removeTools hstay)

theorem operations_applyReloadedMcp (plugins : Plugins ε υ) (title : String)
    (names : List String) (app : TaiMCP ε υ μ) :
    (app.applyReloadedMcp plugins title names).1.operations = app.operations := by
  have hadds := addsOthers_mcpTools plugins title names (app.removeTools (app.mcpBound title))
  unfold TaiMCP.applyReloadedMcp
  simp only
  generalize (app.removeTools (app.mcpBound title)).mcpTools plugins title names = result
    at hadds ⊢
  obtain ⟨app', ok⟩ := result
  cases ok with
  | false => exact hadds.operations
  | true => exact hadds.operations

/-- The tools of a server are bound again where no other tool was made over one of them, over a
branch of one or over a name that the server binds now. -/
theorem Linked.applyReloadedMcp (h : app.Linked gone)
    (hspares : app.Spares (· ∈ app.mcpBound title) fun x =>
      app.GoesWith (app.mcpBound title) x ∨ McpBinds plugins app names x) :
    (app.applyReloadedMcp plugins title names).1.Linked gone := by
  have hadds := addsOthers_mcpTools plugins title names (app.removeTools (app.mcpBound title))
  unfold TaiMCP.applyReloadedMcp
  simp only
  generalize (app.removeTools (app.mcpBound title)).mcpTools plugins title names = result
    at hadds ⊢
  obtain ⟨app', ok⟩ := result
  have hstays : ∀ name tool op, app'.Stays gone name tool → tool.operation? = some op →
      app.Stays gone name tool ∧ app.Stays (· ∈ app.mcpBound title) name tool :=
    fun name tool op hstay hop => Stays.of_removeTools (hadds.stays hstay hop)
  have hnext : ∀ x, ¬(app.GoesWith (app.mcpBound title) x ∨ McpBinds plugins app names x) →
      app'.next x = app.next x :=
    fun x hx => hadds.next fun hbinds => hx (.inr hbinds)
  cases ok with
  | false =>
    refine h.of_touched hspares ?_ hnext fun op hmem => hadds.operations ▸ hmem
    exact fun name tool op hstay hop => .inl (hstays name tool op hstay hop)
  | true =>
    refine h.of_touched hspares ?_ ?_ fun op hmem => hadds.operations ▸ hmem
    · exact fun name tool op hstay hop => .inl (hstays name tool op hstay hop)
    · intro x hx
      refine (next_unregisterTools fun hgoes => hx (.inl ?_)).trans (hnext x hx)
      have hkept := hadds.base x fun hbinds => hx (.inr hbinds)
      rcases hgoes with hmem | ⟨name, hname, hbase⟩
      · exact .inl (List.mem_of_mem_filter hmem)
      · exact .inr ⟨name, List.mem_of_mem_filter hname, hkept.symm.trans hbase⟩

end

/-! ## Sub-MCP apps -/

section

variable {app app' : TaiMCP ε υ μ} {gone : String → Prop} {name slug : String} {tool : Tool}

theorem lookup_collectTools {live tools : Dict Tool} {names : List String}
    (h : collectTools live names = some tools) (hlookup : tools.lookup name = some tool) :
    live.lookup name = some tool := by
  induction names generalizing tools with
  | nil =>
    obtain rfl := Option.some.inj h
    cases hlookup
  | cons x names ih =>
    unfold collectTools at h
    split at h
    · next first rest hfirst hrest =>
      obtain rfl := Option.some.inj h
      by_cases hx : name = x
      · subst hx
        rw [AList.lookup_insert] at hlookup
        exact hfirst.trans hlookup
      · rw [AList.lookup_insert_ne hx] at hlookup
        exact ih hrest hlookup
    · cases h

theorem operations_buildSubApp (h : app.buildSubApp slug = some app') :
    app'.operations = app.operations := by
  unfold TaiMCP.buildSubApp at h
  split at h
  · cases h
  · obtain ⟨-, h⟩ := Option.ite_none_left_eq_some.mp h
    split at h
    · cases h
    · obtain rfl := Option.some.inj h
      rfl

/-- A sub-MCP app that is built holds tools of the main server. -/
theorem Linked.buildSubApp (hall : ∀ x, ¬gone x) (h : app.Linked gone)
    (hbuild : app.buildSubApp slug = some app') : app'.Linked gone := by
  unfold TaiMCP.buildSubApp at hbuild
  split at hbuild
  · cases hbuild
  · next config _ =>
    obtain ⟨-, hbuild⟩ := Option.ite_none_left_eq_some.mp hbuild
    split at hbuild
    · cases hbuild
    · next tools htools =>
      obtain rfl := Option.some.inj hbuild
      refine h.frame ?_ rfl rfl fun _ => id
      rintro name tool (hlive | ⟨slug', held, hcache, hheld⟩)
      · exact .inl hlive
      · have hcache : (app.serverCache.insert slug
            (if config.transport = .stdio then none else some tools)).lookup slug' =
              some (some held) := hcache
        by_cases hslug : slug' = slug
        · subst hslug
          rw [AList.lookup_insert] at hcache
          obtain ⟨-, heq⟩ := Option.ite_none_left_eq_some.mp (Option.some.inj hcache)
          obtain rfl := Option.some.inj heq
          exact .inl ⟨lookup_collectTools htools hheld, hall name⟩
        · rw [AList.lookup_insert_ne hslug] at hcache
          exact .inr ⟨slug', held, hcache, hheld⟩

/-- A cached sub-MCP app is dropped. -/
theorem Cached.of_erase {cache : Dict (Option (Dict Tool))}
    (hcache : cache = app.serverCache.erase slug)
    (h : ∃ slug' tools, cache.lookup slug' = some (some tools) ∧ tools.lookup name = some tool) :
    app.Cached name tool := by
  obtain ⟨slug', tools, hlookup, htool⟩ := h
  subst hcache
  by_cases hslug : slug' = slug
  · subst hslug
    rw [AList.lookup_erase] at hlookup
    cases hlookup
  · rw [AList.lookup_erase_ne hslug] at hlookup
    exact ⟨slug', tools, hlookup, htool⟩

end

/-! ## The whole surface -/

section

variable {app : TaiMCP ε υ μ} {gone : String → Prop} {name : String}

/-- A surface that has just been cleared has no tool to link. -/
theorem linked_startOver (requestedTools : List String)
    (toolExtensions : List (String × List (List ε))) :
    (app.startOver requestedTools toolExtensions).Linked gone := by
  rintro name tool op (⟨hlive, -⟩ | ⟨slug, tools, hcache, -⟩) -
  · cases hlive
  · cases hcache

/-- The spec map is cleared where no tool was made over a preset. -/
theorem Linked.clearSpecs (h : app.Linked gone)
    (hspares : app.Spares (fun _ => False) (· ∈ app.specs)) :
    ({ app with specs := ∅, quarantine := ∅ } : TaiMCP ε υ μ).Linked gone := by
  refine h.of_touched hspares ?_ ?_ fun _ => id
  · exact fun name tool op hstay _ => .inl ⟨hstay, hstay.mono fun _ => False.elim⟩
  · exact fun x hx => next_congr (AList.lookup_eq_none.mpr hx).symm rfl

/-- A spec is adopted for a name that no tool was made over. -/
theorem Linked.adoptSpec (h : app.Linked gone) (body : PresetBody ε υ)
    (hspares : app.Spares (fun _ => False) (· = name)) :
    ({ app with specs := app.specs.insert name body } : TaiMCP ε υ μ).Linked gone := by
  refine h.of_touched hspares ?_ ?_ fun _ => id
  · exact fun name tool op hstay _ => .inl ⟨hstay, hstay.mono fun _ => False.elim⟩
  · exact fun x hx => next_congr (AList.lookup_insert_ne hx) rfl

/-- A quarantined name changes no link. -/
theorem Linked.quarantineAs (h : app.Linked gone) (reason : QuarantineReason) :
    (app.quarantineAs name reason).Linked gone :=
  h.frame (fun _ _ => id) rfl rfl fun _ => id

theorem Linked.dropQuarantine (h : app.Linked gone) : (app.dropQuarantine name).Linked gone :=
  h.frame (fun _ _ => id) rfl rfl fun _ => id

variable {live presetNames : List String} {body : PresetBody ε υ}

theorem Linked.checkBase (h : app.Linked gone) :
    (app.checkBase presetNames live name body).1.Linked gone := by
  unfold TaiMCP.checkBase
  split_ifs
  · exact h.quarantineAs (.baseIsPreset body.baseTool)
  · exact h
  · exact h.quarantineAs (.baseNotRegistered body.baseTool)

theorem Linked.rehydrateOne [DecidableEq ε] [DecidableEq υ] {prior : Dict (PresetBody ε υ)}
    (h : app.Linked gone)
    (hspares : name ∈ live → name ∈ prior →
      if prior.lookup name = some body then app.Spares (fun _ => False) (· = name)
      else app.Spares (app.Torn name) (app.Torn name)) :
    (app.rehydrateOne prior presetNames live name body).1.Linked gone := by
  unfold TaiMCP.rehydrateOne
  split_ifs with hforeign hsame hbound
  · exact h.quarantineAs .nameOccupied
  · have hprior : name ∈ prior := AList.lookup_isSome.mp (by rw [hsame.2]; rfl)
    have hspares := hspares hsame.1 hprior
    rw [if_pos hsame.2] at hspares
    exact h.adoptSpec body hspares
  · have hprior : name ∈ prior := by
      by_contra hnot
      exact hforeign ⟨hbound, hnot⟩
    have hspares := hspares hbound hprior
    rw [if_neg fun heq => hsame ⟨hbound, heq⟩] at hspares
    exact (h.removeRegistration hspares).checkBase
  · exact h.checkBase

theorem operations_checkBase :
    (app.checkBase presetNames live name body).1.operations = app.operations := by
  unfold TaiMCP.checkBase
  split_ifs <;> rfl

theorem operations_rehydrateOne [DecidableEq ε] [DecidableEq υ]
    {prior : Dict (PresetBody ε υ)} :
    (app.rehydrateOne prior presetNames live name body).1.operations = app.operations := by
  unfold TaiMCP.rehydrateOne
  split_ifs
  · rfl
  · rfl
  · exact operations_checkBase
  · exact operations_checkBase

theorem operations_reconcileOne :
    (app.reconcileOne live name body).1.operations = app.operations := by
  unfold TaiMCP.reconcileOne
  simp only
  split_ifs <;> rfl

/-- A preset is reconciled under no other tool. -/
theorem Linked.reconcileOne (h : app.Linked gone)
    (hspares : app.Spares (app.Torn name) (app.Torn name)) :
    (app.reconcileOne live name body).1.Linked gone := by
  unfold TaiMCP.reconcileOne
  simp only
  split_ifs
  · exact h.removeRegistration hspares
  · exact (h.removeRegistration hspares).quarantineAs (.baseVanished body.baseTool)

end

end TaiMCP

end TaiSkeleton.Tools
