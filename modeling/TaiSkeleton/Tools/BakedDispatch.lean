import TaiSkeleton.Tools.BakedBinding

/-!
# The decision reads the arguments of the body

Each dispatch edge hands the resolver the arguments that it calls the tool with. Where the tool
object fits the maps, the value that the decision has for a parameter of the path is the one that
the body is called with.
-/

namespace TaiSkeleton.Tools

open Lib App AccessControl Authz

variable {ε υ : Type}

/-! ## Edges -/

/-- An edge that dispatches a tool: the main server, a sub-MCP app, `run_tool`, and a client
runnable with its positional arguments. -/
inductive Edge (υ : Type) where
  | server
  | subApp (slug : String)
  | runTool
  | client (positional : List υ)

/-- The parameters that a tool presents, of those in the signature of its operation. -/
def BakedTool.parameters (signature : String → List String) : BakedTool υ → List String
  | .operation name => signature name
  | .capability => []
  | .over _ baked tool => (tool.parameters signature).filter (· ∉ baked)

/-- `signature.bind_partial`, of the parameters that are passed by position or by name. -/
def bindPartial : List String → List υ → Kwargs υ → Option (Kwargs υ)
  | _, [], arguments => some arguments
  | [], _ :: _, _ => none
  | param :: parameters, value :: positional, arguments =>
    if param ∈ arguments then none
    else (bindPartial parameters positional arguments).map (·.insert param value)

namespace Surface

variable (signature : String → List String) (unset : υ)

/-- The tool that an edge runs under a name. -/
def toolAt (s : Surface ε υ) (name : String) : Edge υ → Option (BakedTool υ)
  | .subApp slug =>
    match s.serverCache.lookup slug with
    | some (some tools) => tools.lookup name
    | _ => none
  | _ => s.live.lookup name

/-- The arguments that an edge decides on, and those that it calls the tool with. -/
def callArguments [DecidableEq υ] (tool : BakedTool υ) (arguments : Kwargs υ) :
    Edge υ → Option (Kwargs υ × Kwargs υ)
  | .server => some (arguments, arguments)
  | .subApp _ => some (arguments, arguments)
  | .runTool => some (strip unset arguments, strip unset arguments)
  | .client positional =>
    (bindPartial (tool.parameters signature) positional arguments).map fun bound =>
      (strip unset bound, bound)

/-- The arguments of the decision, each as `str` spells it. -/
def Spells (spell : υ → Path) (decided : Kwargs υ) (args : CallArguments) : Prop :=
  ∀ param, args.lookup param = (decided.lookup param).map spell

/-- The check of a caller passes, in some state of the access-control stores. -/
def Admitted (spell : υ → Path) (op : OperationMetadata) (decided : Kwargs υ) : Prop :=
  ∃ (args : CallArguments) (snapshot : Snapshot) (evaluable : String → Bool)
    (caller : CallerIdentity) (fire : Bool),
    Spells spell decided args ∧ snapshot.settings.enable = true ∧ caller.isInternal = false ∧
      check op args snapshot evaluable caller fire = .ok ()

/-- A call that the decision admits and that reaches the body of an operation is decided for this
operation, and on the path parameters of the body. -/
def ReadsBody [DecidableEq υ] (spell : υ → Path) (s : Surface ε υ) : Prop :=
  ∀ (edge : Edge υ) (name : String) (arguments : Kwargs υ) (tool : BakedTool υ)
    (decided sent : Kwargs υ) (op : OperationMetadata) (callArgs : Kwargs υ) (body : String)
    (bodyArgs : Kwargs υ),
    s.toolAt name edge = some tool →
    callArguments signature unset tool arguments edge = some (decided, sent) →
    s.app.resolveDispatch name decided = .ok (some ⟨op, callArgs⟩) → Admitted spell op callArgs →
    tool.call sent = some (body, bodyArgs) →
      s.operations.lookup body = some op ∧
        ∀ param ∈ op.pathParams, callArgs.lookup param = bodyArgs.lookup param

variable {signature unset} {s : Surface ε υ} {name : String} {tool : BakedTool υ}

theorem mem_kept_of_toolAt {edge : Edge υ} (h : s.toolAt name edge = some tool) :
    (name, tool) ∈ s.kept := by
  cases edge with
  | subApp slug =>
    dsimp only [toolAt] at h
    split at h
    · next tools hentry => exact kept_of_cache hentry h
    · cases h
  | server => exact mem_kept.mpr (.inl h)
  | runTool => exact mem_kept.mpr (.inl h)
  | client positional => exact mem_kept.mpr (.inl h)

theorem Within.refl (params : List String) (arguments : Kwargs υ) :
    Within params arguments arguments := fun _ _ _ => rfl

theorem Within.strip [DecidableEq υ] (params : List String) (unset : υ) (arguments : Kwargs υ) :
    Within params (strip unset arguments) arguments := by
  intro param _ hmem
  obtain ⟨value, hvalue⟩ := Option.isSome_iff_exists.mp (Finmap.lookup_isSome.mpr hmem)
  have hentry := Multiset.mem_filter.mp (Finmap.mem_lookup_iff.mp hvalue)
  exact hvalue.trans (Finmap.mem_lookup_iff.mpr hentry.1).symm

/-- Every edge decides on arguments that it calls the tool with. -/
theorem within_of_callArguments [DecidableEq υ] {edge : Edge υ} {arguments decided sent : Kwargs υ}
    (h : callArguments signature unset tool arguments edge = some (decided, sent))
    (params : List String) : Within params decided sent := by
  cases edge with
  | client positional =>
    obtain ⟨bound, -, heq⟩ := Option.map_eq_some_iff.mp h
    obtain ⟨rfl, rfl⟩ := Prod.mk.inj heq
    exact Within.strip params unset bound
  | server =>
    obtain ⟨rfl, rfl⟩ := Prod.mk.inj (Option.some.inj h)
    exact Within.refl params _
  | subApp slug =>
    obtain ⟨rfl, rfl⟩ := Prod.mk.inj (Option.some.inj h)
    exact Within.refl params _
  | runTool =>
    obtain ⟨rfl, rfl⟩ := Prod.mk.inj (Option.some.inj h)
    exact Within.refl params _

/-! ## Decisions -/

/-- Arguments that the check passes on have every parameter of the path. -/
theorem Admitted.mem {spell : υ → Path} {op : OperationMetadata} {decided : Kwargs υ}
    (h : Admitted spell op decided) : ∀ param ∈ op.pathParams, param ∈ decided := by
  obtain ⟨args, snapshot, evaluable, caller, fire, hspells, henable, hinternal, hcheck⟩ := h
  obtain ⟨path, hpath⟩ := synthesizePath_of_check henable hinternal hcheck
  intro param hparam
  have hlookup := lookup_of_synthesizePath hpath param hparam
  rw [hspells] at hlookup
  by_contra hmem
  rw [Finmap.lookup_eq_none.mpr hmem] at hlookup
  exact hlookup rfl

/-- What a decision ends at, for a name whose chain ends. -/
theorem resolved_of_leads {last : String} {path : List String} {decided callArgs : Kwargs υ}
    {op : OperationMetadata} (h : Leads s.app.next name path last)
    (hresolve : s.app.resolveDispatch name decided = .ok (some ⟨op, callArgs⟩)) :
    s.operations.lookup last = some op ∧ path.foldl s.app.bake decided = callArgs := by
  have hchase : s.app.chase s.app.linkedNames.length [] name decided = _ :=
    TaiMCP.chase_eq_of_leads h (h.length_le fun _ => TaiMCP.mem_linkedNames)
      fun x _ => List.not_mem_nil
  unfold TaiMCP.resolveDispatch at hresolve
  rw [hchase] at hresolve
  dsimp only at hresolve
  split at hresolve
  · next operation hop =>
    split_ifs at hresolve
    obtain ⟨rfl, rfl⟩ := ResolvedDispatch.mk.inj (Option.some.inj (Except.ok.inj hresolve))
    exact ⟨hop, rfl⟩
  · split_ifs at hresolve
    cases hresolve

theorem Faithful.readsBody [DecidableEq υ] {spell : υ → Path} (h : s.Faithful) :
    s.ReadsBody signature unset spell := by
  intro edge name arguments tool decided sent op callArgs body bodyArgs htool harguments hresolve
    hadmitted hcall
  have hkept := mem_kept_of_toolAt htool
  obtain ⟨root, hroot⟩ := tool.operation?_of_call hcall
  obtain ⟨op', hfits⟩ := h.fits _ hkept root hroot
  have hop' : tool.root name ∈ s.operations :=
    AList.lookup_isSome.mp (hfits.operation ▸ rfl)
  obtain ⟨path, last, hleads, hlast⟩ := hfits.leads (h.unlinked _ hop')
  obtain ⟨hop, rfl⟩ := resolved_of_leads hleads hresolve
  obtain ⟨rfl, hcalls⟩ := hlast (AList.lookup_isSome.mp (hop ▸ rfl))
  obtain rfl := Option.some.inj (hop.symm.trans hfits.operation)
  obtain ⟨rfl, hwithin⟩ :=
    hcalls decided sent body bodyArgs (within_of_callArguments harguments _) hcall
  exact ⟨hop, fun param hparam => hwithin param hparam (hadmitted.mem param hparam)⟩

/-- The decision reads the arguments of the body in every state that steps lead to which spare the
tool objects. -/
theorem readsBody_of_spares [DecidableEq ε] [DecidableEq υ] {plugins : Plugins ε υ}
    (spell : υ → Path)
    (h : ((dispatchSurface plugins).when fun s a => s.Spares plugins a).Reachable s) :
    s.ReadsBody signature unset spell :=
  (faithful_of_reachable h).readsBody

/-! ## A preset that a sub-MCP app was built with -/

/-- A worker whose one operation reads a report. -/
def reportSurface : Surface Unit String :=
  { operations := AList.insert "get_report" getReport ∅ }

theorem init_reportSurface (plugins : Plugins Unit String) :
    (dispatchSurface plugins).init reportSurface := ⟨_, _, rfl, rfl⟩

def plainPlugins : Plugins Unit String := ⟨fun _ _ name => some name, fun _ _ => true⟩

/-- The report of one id. -/
def reportOf (id : String) : PresetBody Unit String :=
  { baseTool := "get_report", fixedKwargs := Finmap.insert "id" id ∅ }

/-- A sub-MCP app is built with the preset of one report, which is then reloaded with another. -/
def reportActs (first second : String) : List (SurfaceStep Unit String) :=
  [.project "get_report", .register "daily" (reportOf first),
    .registerSubMcpApp "reports" ⟨["daily"], .http⟩, .beginBuild "reports", .takeTool "reports",
    .finishBuild "reports", .reload "daily", .reloadRead "daily" (some (reportOf second))]

/-- The preset is saved again with the same constant: the app's tool is of the preset as it is. -/
theorem daily_readsBody : ∃ s, ((dispatchSurface plainPlugins).when
    fun s a => s.Spares plainPlugins a).Reachable s ∧
      s.toolAt "daily" (.subApp "reports") ≠ none ∧
      s.ReadsBody (fun _ => ["id"]) "unset" String.toList := by
  have hrun : ((reportActs "1" "1").foldlM
      (System.guarded (Surface.step plainPlugins) fun s a => decide (s.Spares plainPlugins a))
      reportSurface).any (fun s => decide (s.toolAt "daily" (.subApp "reports") ≠ none)) = true := by
    decide +kernel
  obtain ⟨s, hs, hp⟩ := System.Reachable.of_foldlM
    (S := (dispatchSurface plainPlugins).when fun s a => s.Spares plainPlugins a)
    (fun s a s' h => ⟨of_decide_eq_true (System.step_of_guarded h).1,
      (System.step_of_guarded h).2⟩) (init_reportSurface plainPlugins) hrun
  exact ⟨s, hs, of_decide_eq_true hp, readsBody_of_spares String.toList hs⟩

/-- The app's tool bakes the report of the build, and the decision reads the one of the reload. -/
theorem stale_daily : ∃ s, (dispatchSurface plainPlugins).Reachable s ∧
    ¬s.ReadsBody (fun _ => ["id"]) "unset" String.toList := by
  have hrun : ((reportActs "1" "2").foldlM (Surface.step plainPlugins) reportSurface).any
      (fun s => decide (s.toolAt "daily" (.subApp "reports") =
          some (.over "get_report" (Finmap.insert "id" "1" ∅) (.operation "get_report")) ∧
        s.app.resolveDispatch "daily" ∅ = .ok (some ⟨getReport, Finmap.insert "id" "2" ∅⟩))) =
      true := by
    decide +kernel
  obtain ⟨s, hs, hp⟩ := System.Reachable.of_foldlM (S := dispatchSurface plainPlugins)
    (fun _ _ _ h => h) (init_reportSurface plainPlugins) hrun
  obtain ⟨htool, hresolve⟩ := of_decide_eq_true hp
  have hadmitted : Admitted String.toList getReport (Finmap.insert "id" "2" ∅) := by
    refine ⟨[("id", "2".toList)], deployment [reportRoute]
      [⟨"/api/reports/2".toList, "reports", none⟩] [] [("key", { scopes := ["reports"] })],
      fun _ => true, { userId := some "key" }, false, ?_, rfl, rfl, by decide +kernel⟩
    intro param
    by_cases hparam : param = "id"
    · subst hparam
      rw [Finmap.lookup_insert]
      rfl
    · rw [Finmap.lookup_insert_of_ne _ hparam]
      simp [hparam]
  refine ⟨s, hs, fun hreads => ?_⟩
  obtain ⟨-, hparams⟩ := hreads (.subApp "reports") "daily" ∅ _ ∅ ∅ getReport _ "get_report" _ htool
    rfl hresolve hadmitted (by rfl)
  exact absurd (hparams "id" (by decide +kernel)) (by decide +kernel)

end Surface

end TaiSkeleton.Tools
