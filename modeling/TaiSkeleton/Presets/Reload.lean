import TaiSkeleton.App.Reloads

/-!
# A preset reload that raises

A reload tears its preset down, reads the active body and binds it; where that bind raises, it binds
the captured spec again over what the failed one has left. The preset is bound as before where the
reload gets as far as that and the base tool of the captured spec has not gone with the failed bind.
-/

namespace TaiSkeleton.Tools

namespace TaiMCP

variable {ε υ μ : Type}

/-! ## The reload -/

/-- Where a cancellation can land in a reload after its read: the awaits in front of the bind of the
new body, and those in front of the bind of the captured spec. -/
inductive ReloadAwait where
  | binding
  | restoring
deriving DecidableEq

/-- `reload`; `read` is none where the read of the active body raises, and the Boolean is false
where the reload does. -/
def reload [DecidableEq ε] (plugins : Plugins ε υ) (read : Option (PresetBody ε υ))
    (cancelled : ReloadAwait → Bool) (name : String) (app : TaiMCP ε υ μ) :
    TaiMCP ε υ μ × Bool :=
  let captured := app.specs.lookup name
  let app := app.removeRegistration name
  match read with
  | none => (app, false)
  | some body =>
    -- A `CancelledError` is no `Exception`, so nothing is restored after it.
    if cancelled .binding then (app, false)
    else
      match app.register plugins name body with
      | (app, true) => (app, true)
      | (app, false) =>
        match captured with
        | none => (app, false)
        | some captured =>
          if cancelled .restoring then (app, false)
          else ((app.register plugins name captured).1, false)

/-- A preset is bound as it was, with its spec and its branches, and no tool is bound that was
not. -/
structure Kept (app app' : TaiMCP ε υ μ) (name : String) : Prop where
  spec : app'.specs.lookup name = app.specs.lookup name
  torn : ∀ x, app'.Torn name x ↔ app.Torn name x
  tools : ∀ x, app.Torn name x → app'.live.lookup x = app.live.lookup x
  added : ∀ x tool, app'.live.lookup x = some tool → app.live.lookup x = some tool

/-- What is bound of a preset is what its spec makes of the base tool. -/
def Mirrors (plugins : Plugins ε υ) (name : String) (body : PresetBody ε υ)
    (app : TaiMCP ε υ μ) : Prop :=
  ∃ base names, app.live.lookup body.baseTool = some base ∧
    presetNames plugins name body base = some names ∧
    ∀ x, (app.Torn name x ↔ x ∈ names) ∧
      (x ∈ names → app.live.lookup x = some (layerOf name (.over body.baseTool base) x))

/-- The live tool that the bind of a preset's body runs into. -/
def runsInto (plugins : Plugins ε υ) (name : String) (body : PresetBody ε υ)
    (app : TaiMCP ε υ μ) : Option String :=
  match app.presetBase plugins name body with
  | none => none
  | some base =>
    match presetNames plugins name body base with
    | none => none
    | some names => names.find? fun x => decide (x ∈ app.live)

/-! ## Teardown -/

section

variable {app : TaiMCP ε υ μ} {name x : String}

theorem lookup_removeRegistration_of_torn (h : app.Torn name x) :
    (app.removeRegistration name).live.lookup x = none := by
  cases hlookup : (app.removeRegistration name).live.lookup x with
  | none => rfl
  | some tool => exact absurd h (live_removeRegistration hlookup).1

theorem lookup_removeRegistration (h : ¬app.Torn name x) :
    (app.removeRegistration name).live.lookup x = app.live.lookup x := by
  unfold Torn at h
  rw [not_or] at h
  unfold removeRegistration
  rw [AList.lookup_erase_ne h.1, ToolRegistry.lookup_foldl_erase, if_neg h.2]

@[simp] theorem specs_removeRegistration :
    (app.removeRegistration name).specs.lookup name = none :=
  AList.lookup_erase _ _

/-- A preset that was torn down has no branches. -/
theorem torn_removeRegistration : (app.removeRegistration name).Torn name x ↔ x = name := by
  refine or_iff_left fun hbranch => ?_
  obtain ⟨hbase, hne⟩ := ToolRegistry.mem_branches.mp hbranch
  change (app.toolRegistry.unregisterToolBase name).extendTools.lookup x = some name at hbase
  rw [ToolRegistry.lookup_unregisterToolBase] at hbase
  obtain ⟨hnot, hlookup⟩ := Option.ite_none_left_eq_some.mp hbase
  exact hnot (.inr (ToolRegistry.mem_branches.mpr ⟨hlookup, hne⟩))

end

/-! ## Binding names that are free -/

/-- The name at which a bind stops is the first that is live. -/
theorem mem_reached_of_live {live : Dict Tool} {names : List String} {x : String}
    (hlive : x ∈ live) :
    x ∈ reached live names ↔ (names.find? fun x => decide (x ∈ live)) = some x := by
  induction names with
  | nil => simp [reached]
  | cons name names ih =>
    unfold reached
    by_cases hname : name ∈ live
    · simp only [hname, if_true, List.find?_cons, decide_true, List.mem_singleton, Option.some_inj]
      exact eq_comm
    · simp only [hname, if_false, List.find?_cons, decide_false, List.mem_cons]
      rw [ih]
      exact or_iff_right fun heq => hname (heq ▸ hlive)

/-- A bind of names that are free binds all of them. -/
theorem lookup_bindTools (owner : Option String) (origName : String) (tool : Tool)
    {names : List String} (hnodup : names.Nodup) (app : TaiMCP ε υ μ)
    (hfree : ∀ x ∈ names, x ∉ app.live) (x : String) :
    (app.bindTools owner origName tool names).1.live.lookup x =
      if x ∈ names then some (layerOf origName tool x) else app.live.lookup x := by
  induction names generalizing app with
  | nil => simp [bindTools]
  | cons name names ih =>
    obtain ⟨hname, hnodup⟩ := List.nodup_cons.mp hnodup
    obtain ⟨hfirst, hfree⟩ := List.forall_mem_cons.mp hfree
    obtain ⟨app₁, hbind, hlive, -⟩ :=
      app.bindTool_free owner origName (layerOf origName tool name) hfirst
    have hfree₁ : ∀ y ∈ names, y ∉ app₁.live := by
      intro y hy hmem
      rw [hlive, AList.mem_insert] at hmem
      rcases hmem with rfl | hmem
      · exact hname hy
      · exact hfree y hy hmem
    unfold bindTools
    rw [hbind]
    refine (ih hnodup app₁ hfree₁).trans ?_
    rw [hlive]
    by_cases hx : x = name
    · subst hx
      simp [hname]
    · simp [hx, AList.lookup_insert_ne hx]

/-! ## Registering over what was torn down -/

section

variable [DecidableEq ε] {plugins : Plugins ε υ} {name : String} {body : PresetBody ε υ}
  {app : TaiMCP ε υ μ} {base : Tool} {names : List String}

theorem register_refused (hbase : app.presetBase plugins name body = none) :
    app.register plugins name body = (app, false) := by
  unfold register
  rw [hbase]

/-- A registration that has a base tool to bind over seeds the combos of its preset and binds the
names they make. -/
theorem register_seeded (hbase : app.presetBase plugins name body = some base) :
    ∃ toolRegistry, toolRegistry.extendTools = app.toolRegistry.extendTools ∧
      app.register plugins name body =
        match presetNames plugins name body base with
        | none => (({ app with toolRegistry } : TaiMCP ε υ μ).removeRegistration name, false)
        | some names =>
          match bindTools none name (.over body.baseTool base) names { app with toolRegistry } with
          | (app, true) => ({ app with specs := app.specs.insert name body }, true)
          | (app, false) => (app.removeRegistration name, false) := by
  obtain ⟨toolRegistry, hregistry, hextend, htools⟩ :=
    app.toolRegistry.registerTool_unregisterTool name body.extensions
  refine ⟨toolRegistry, hextend, ?_⟩
  unfold register
  rw [hbase]
  show app.bindPreset plugins name body base = _
  unfold bindPreset
  simp only [hregistry]
  have hnames : ({ app with toolRegistry } : TaiMCP ε υ μ).toBind plugins name
      (.over body.baseTool base) = presetNames plugins name body base := by
    unfold toBind presetNames
    rw [show ({ app with toolRegistry } : TaiMCP ε υ μ).toolRegistry.tools.lookup name = _ from
      htools]
    rfl
  cases hbound : presetNames plugins name body base with
  | none => rw [bindToolFunc_none (hnames.trans hbound)]
  | some names =>
    rw [bindToolFunc_some (hnames.trans hbound)] <;> rfl

/-- What a registration leaves that binds: the preset with its spec, and nothing else new. -/
structure Registered (plugins : Plugins ε υ) (name : String) (body : PresetBody ε υ) (base : Tool)
    (names : List String) (app app' : TaiMCP ε υ μ) : Prop where
  spec : app'.specs.lookup name = some body
  torn : ∀ x, app'.Torn name x ↔ x ∈ names
  live : ∀ x, app'.live.lookup x =
    if x ∈ names then some (layerOf name (.over body.baseTool base) x) else app.live.lookup x

/-- What a registration leaves that fails: no spec, no branches, and of the live tools all but the
one that it ran into. -/
structure Failed (plugins : Plugins ε υ) (name : String) (body : PresetBody ε υ)
    (app app' : TaiMCP ε υ μ) : Prop where
  spec : app'.specs.lookup name = none
  torn : ∀ x, app'.Torn name x ↔ x = name
  live : ∀ x, app'.live.lookup x =
    if app.runsInto plugins name body = some x then none else app.live.lookup x

/-- A registration over a preset that was torn down binds where its base tool is there and its names
are free. -/
theorem registered_register (hclear : ∀ x, app.Torn name x ↔ x = name)
    (hbase : app.presetBase plugins name body = some base)
    (hnames : presetNames plugins name body base = some names)
    (hfree : ∀ x ∈ names, x ∉ app.live) :
    (app.register plugins name body).2 = true ∧
      Registered plugins name body base names app (app.register plugins name body).1 := by
  obtain ⟨toolRegistry, hextend, hregister⟩ := register_seeded hbase
  obtain ⟨hnodup, hmem⟩ := boundNames_nodup hnames
  have hok := (bindTools_ok none name (.over body.baseTool base) hnodup
    { app with toolRegistry }).mpr hfree
  have hbinds := bindTools_binds none name (.over body.baseTool base) hnodup
    { app with toolRegistry }
  have hlive := lookup_bindTools none name (.over body.baseTool base) hnodup
    { app with toolRegistry } hfree
  rw [hnames] at hregister
  simp only at hregister
  generalize bindTools none name (.over body.baseTool base) names { app with toolRegistry } =
    result at hok hbinds hlive hregister
  obtain ⟨app', ok⟩ := result
  obtain rfl : ok = true := hok
  rw [hregister]
  refine ⟨rfl, AList.lookup_insert _, fun x => ?_, hlive⟩
  show x = name ∨ x ∈ app'.toolRegistry.branches name ↔ _
  rw [ToolRegistry.mem_branches, hbinds.base x, reached_of_fresh hfree]
  by_cases hx : x ∈ names
  · simp only [hx, if_true, true_and, iff_true]
    exact em (x = name)
  · simp only [hx, if_false, iff_false, not_or]
    refine ⟨fun heq => hx (heq ▸ hmem), ?_⟩
    rw [hextend]
    rintro ⟨hlookup, hne⟩
    exact hne ((hclear x).mp (.inr (ToolRegistry.mem_branches.mpr ⟨hlookup, hne⟩)))

/-- A registration over a preset that was torn down takes the live tool with it that it runs
into. -/
theorem failed_register (hclear : ∀ x, app.Torn name x ↔ x = name)
    (hspec : app.specs.lookup name = none)
    (hraises : (app.register plugins name body).2 = false) :
    Failed plugins name body app (app.register plugins name body).1 := by
  cases hbase : app.presetBase plugins name body with
  | none =>
    rw [register_refused hbase]
    refine ⟨hspec, hclear, fun x => ?_⟩
    unfold runsInto
    rw [hbase, if_neg (Option.some_ne_none x).symm]
  | some base =>
    obtain ⟨toolRegistry, hextend, hregister⟩ := register_seeded hbase
    have hfree : app.live.lookup name = none :=
      AList.lookup_eq_none.mpr (presetBase_eq_some hbase).2.1
    have hseeded : ∀ x, ({ app with toolRegistry } : TaiMCP ε υ μ).Torn name x ↔ x = name := by
      unfold Torn ToolRegistry.branches at hclear ⊢
      rw [hextend]
      exact hclear
    cases hnames : presetNames plugins name body base with
    | none =>
      rw [hnames] at hregister
      rw [hregister]
      refine ⟨specs_removeRegistration, fun x => torn_removeRegistration, fun x => ?_⟩
      have hnowhere : app.runsInto plugins name body = none := by
        unfold runsInto
        simp only [hbase, hnames]
      rw [hnowhere, if_neg (Option.some_ne_none x).symm]
      by_cases hx : x = name
      · rw [lookup_removeRegistration_of_torn ((hseeded x).mpr hx), hx, hfree]
      · exact lookup_removeRegistration (mt (hseeded x).mp hx)
    | some names =>
      obtain ⟨hnodup, -⟩ := boundNames_nodup hnames
      have hbinds := bindTools_binds none name (.over body.baseTool base) hnodup
        { app with toolRegistry }
      rw [hnames] at hregister
      simp only at hregister
      generalize bindTools none name (.over body.baseTool base) names { app with toolRegistry } =
        result at hbinds hregister
      obtain ⟨app', ok⟩ := result
      rw [hregister] at hraises ⊢
      cases ok with
      | true => cases hraises
      | false =>
        refine ⟨specs_removeRegistration, fun x => torn_removeRegistration, fun x => ?_⟩
        have hinto : app.runsInto plugins name body = some x ↔
            x ∈ app.live ∧ x ∈ reached app.live names := by
          unfold runsInto
          simp only [hbase, hnames]
          constructor
          · intro hfind
            have hfound := List.find?_some hfind
            have hlive : x ∈ app.live := of_decide_eq_true hfound
            exact ⟨hlive, (mem_reached_of_live hlive).mpr hfind⟩
          · rintro ⟨hlive, hreached⟩
            exact (mem_reached_of_live hlive).mp hreached
        have htorn : app'.Torn name x ↔ x = name ∨ x ∈ reached app.live names := by
          unfold Torn
          rw [ToolRegistry.mem_branches, hbinds.base x]
          by_cases hx : x ∈ reached app.live names
          · simp only [hx, if_true, true_and, or_true, iff_true]
            exact em (x = name)
          · have hbefore := hseeded x
            unfold Torn at hbefore
            rw [ToolRegistry.mem_branches] at hbefore
            simp only [hx, if_false, or_false]
            exact hbefore
        by_cases hx : app'.Torn name x
        · rw [lookup_removeRegistration_of_torn hx]
          split_ifs with hat
          · rfl
          · rcases htorn.mp hx with rfl | hreached
            · exact hfree.symm
            · have hnot : x ∉ app.live := fun hlive => hat (hinto.mpr ⟨hlive, hreached⟩)
              exact (AList.lookup_eq_none.mpr hnot).symm
        · rw [lookup_removeRegistration hx, if_neg fun hat => hx (htorn.mpr (.inr (hinto.mp hat).2))]
          rcases hbinds.live x with hsame | ⟨hreached, -⟩
          · exact hsame
          · exact absurd (htorn.mpr (.inr hreached)) hx

/-- A registration that binds has a base tool, and its names are free. -/
theorem register_ok (hok : (app.register plugins name body).2 = true) :
    ∃ base names, app.presetBase plugins name body = some base ∧
      presetNames plugins name body base = some names ∧ ∀ x ∈ names, x ∉ app.live := by
  cases hbase : app.presetBase plugins name body with
  | none =>
    rw [register_refused hbase] at hok
    cases hok
  | some base =>
    obtain ⟨toolRegistry, -, hregister⟩ := register_seeded hbase
    rw [hregister] at hok
    cases hnames : presetNames plugins name body base with
    | none =>
      rw [hnames] at hok
      cases hok
    | some names =>
      refine ⟨base, names, rfl, hnames, ?_⟩
      rw [hnames] at hok
      simp only at hok
      refine (bindTools_ok none name (.over body.baseTool base) (boundNames_nodup hnames).1
        { app with toolRegistry }).mp ?_
      generalize bindTools none name (.over body.baseTool base) names { app with toolRegistry } =
        result at hok ⊢
      obtain ⟨app', ok⟩ := result
      cases ok with
      | true => rfl
      | false => cases hok

end

/-! ## The restored preset -/

section

variable [DecidableEq ε] {plugins : Plugins ε υ} {name : String} {body c : PresetBody ε υ}
  {app app' : TaiMCP ε υ μ} {base : Tool} {names : List String}

omit [DecidableEq ε] in
/-- A preset of which no spec is left is not kept. -/
theorem not_kept (hspec : app.specs.lookup name = some c) (hgone : app'.specs.lookup name = none) :
    ¬Kept app app' name := by
  intro hkept
  rw [hkept.spec, hspec] at hgone
  cases hgone

omit [DecidableEq ε] in
/-- What the failed bind of another body leaves is there to bind a spec over if its base tool is. -/
theorem presetBase_failed {app₁ app₂ : TaiMCP ε υ μ}
    (hbase : app₁.presetBase plugins name c = some base)
    (hfailed : Failed plugins name body app₁ app₂) :
    app₂.presetBase plugins name c =
      if app₁.runsInto plugins name body = some c.baseTool then none else some base := by
  obtain ⟨-, hname, -⟩ := presetBase_eq_some hbase
  have hspec : name ∉ app₂.specs := AList.lookup_eq_none.mp hfailed.spec
  have hfree : name ∉ app₂.live := by
    refine AList.lookup_eq_none.mp ((hfailed.live name).trans ?_)
    rw [AList.lookup_eq_none.mpr hname, ite_self]
  unfold presetBase at hbase ⊢
  obtain ⟨-, hbakes⟩ := Option.ite_none_left_eq_some.mp hbase
  rw [if_neg (not_or.mpr ⟨hspec, hfree⟩), hfailed.live]
  split_ifs with hat
  · rfl
  · exact hbakes

omit [DecidableEq ε] in
/-- The captured spec, bound again over what a failed bind has left, is what was bound before. -/
theorem kept_iff_mirrors {app₂ : TaiMCP ε υ μ} (hspec : app.specs.lookup name = some c)
    (hlookup : app.live.lookup c.baseTool = some base)
    (hnames : presetNames plugins name c base = some names)
    (hleft : ∀ x tool, app₂.live.lookup x = some tool → app.live.lookup x = some tool)
    (hregistered : Registered plugins name c base names app₂ app') :
    Kept app app' name ↔ Mirrors plugins name c app := by
  constructor
  · intro hkept
    refine ⟨base, names, hlookup, hnames, fun x => ?_⟩
    have htorn := (hkept.torn x).symm.trans (hregistered.torn x)
    refine ⟨htorn, fun hx => ?_⟩
    rw [← hkept.tools x (htorn.mpr hx), hregistered.live x, if_pos hx]
  · rintro ⟨base', names', hlookup', hnames', hbound⟩
    obtain rfl := Option.some.inj (hlookup.symm.trans hlookup')
    obtain rfl := Option.some.inj (hnames.symm.trans hnames')
    refine ⟨hregistered.spec.trans hspec.symm, fun x => ?_, fun x hx => ?_, fun x tool h => ?_⟩
    · exact (hregistered.torn x).trans (hbound x).1.symm
    · have hmem := (hbound x).1.mp hx
      rw [hregistered.live x, if_pos hmem, (hbound x).2 hmem]
    · rw [hregistered.live x] at h
      split_ifs at h with hmem
      · exact ((hbound x).2 hmem).trans h
      · exact hleft x tool h

omit [DecidableEq ε] in
/-- A registration that binds over a tool it leaves there mirrors its spec. -/
theorem Registered.mirrors {app₁ : TaiMCP ε υ μ}
    (h : Registered plugins name body base names app₁ app)
    (hnames : presetNames plugins name body base = some names)
    (hbase : app₁.live.lookup body.baseTool = some base) (hnot : body.baseTool ∉ names) :
    Mirrors plugins name body app := by
  refine ⟨base, names, ?_, hnames, fun x => ⟨h.torn x, fun hx => ?_⟩⟩
  · rw [h.live, if_neg hnot, hbase]
  · rw [h.live, if_pos hx]

/-- A reload that raises leaves its preset as it was if and only if the read returned, no
cancellation landed on it, the bind of the new body did not run into the captured base tool, and
the preset was bound as its spec says. -/
theorem kept_reload_iff {read : Option (PresetBody ε υ)} {cancelled : ReloadAwait → Bool}
    (hspec : app.specs.lookup name = some c)
    (hcould : ((app.removeRegistration name).register plugins name c).2 = true)
    (hraises : (app.reload plugins read cancelled name).2 = false) :
    Kept app (app.reload plugins read cancelled name).1 name ↔
      (∃ body, read = some body ∧
        (app.removeRegistration name).runsInto plugins name body ≠ some c.baseTool) ∧
      (∀ await, cancelled await = false) ∧ Mirrors plugins name c app := by
  obtain ⟨base, names, hbase, hnames, hfree⟩ := register_ok hcould
  have hclear : ∀ x, (app.removeRegistration name).Torn name x ↔ x = name :=
    fun x => torn_removeRegistration
  cases read with
  | none =>
    refine iff_of_false (not_kept hspec specs_removeRegistration) ?_
    rintro ⟨⟨body, hread, -⟩, -⟩
    cases hread
  | some body =>
    unfold reload at hraises ⊢
    simp only [hspec] at hraises ⊢
    by_cases hbinding : cancelled .binding
    · rw [if_pos hbinding]
      refine iff_of_false (not_kept hspec specs_removeRegistration) ?_
      rintro ⟨-, hnone, -⟩
      exact Bool.false_ne_true ((hnone .binding).symm.trans hbinding)
    rw [if_neg hbinding] at hraises ⊢
    have hfails : ((app.removeRegistration name).register plugins name body).2 = false →
        Failed plugins name body (app.removeRegistration name)
          ((app.removeRegistration name).register plugins name body).1 :=
      failed_register hclear specs_removeRegistration
    generalize (app.removeRegistration name).register plugins name body = result
      at hfails hraises ⊢
    obtain ⟨app₂, ok⟩ := result
    cases ok with
    | true => cases hraises
    | false =>
      have hfailed := hfails rfl
      simp only at hfailed ⊢
      by_cases hrestoring : cancelled .restoring
      · rw [if_pos hrestoring]
        refine iff_of_false (not_kept hspec hfailed.spec) ?_
        rintro ⟨-, hnone, -⟩
        exact Bool.false_ne_true ((hnone .restoring).symm.trans hrestoring)
      rw [if_neg hrestoring]
      have hquiet : ∀ await, cancelled await = false := by
        rintro (_ | _)
        · exact Bool.eq_false_iff.mpr hbinding
        · exact Bool.eq_false_iff.mpr hrestoring
      have hagain := presetBase_failed hbase hfailed
      split_ifs at hagain with hinto
      · rw [register_refused hagain]
        refine iff_of_false (not_kept hspec hfailed.spec) ?_
        rintro ⟨⟨body', hread, hnot⟩, -⟩
        obtain rfl := Option.some.inj hread
        exact hnot hinto
      · have hleft : ∀ x tool, app₂.live.lookup x = some tool →
            (app.removeRegistration name).live.lookup x = some tool := by
          intro x tool hlookup
          rw [hfailed.live x] at hlookup
          exact (Option.ite_none_left_eq_some.mp hlookup).2
        have hfree₂ : ∀ x ∈ names, x ∉ app₂.live := by
          intro x hx hmem
          obtain ⟨tool, hlookup⟩ := Option.isSome_iff_exists.mp (AList.lookup_isSome.mpr hmem)
          refine hfree x hx (AList.lookup_isSome.mp ?_)
          rw [hleft x tool hlookup]
          rfl
        have hregistered := (registered_register hfailed.torn hagain hnames hfree₂).2
        have hlookup := (live_removeRegistration (presetBase_eq_some hbase).2.2).2
        rw [kept_iff_mirrors hspec hlookup hnames
          (fun x tool h => (live_removeRegistration (hleft x tool h)).2) hregistered]
        refine ⟨fun hmirrors => ⟨⟨body, rfl, hinto⟩, hquiet, hmirrors⟩, ?_⟩
        rintro ⟨-, -, hmirrors⟩
        exact hmirrors

end

/-! ## A preset that is dropped -/

/-- A surface with one tool. -/
def oneTool : TaiMCP String Unit Unit :=
  (({} : TaiMCP String Unit Unit).bindToolFunc suffixing none "daily_audited" .capability).1

/-- A preset over that tool. -/
def daily : PresetBody String Unit := { baseTool := "daily_audited" }

/-- The surface with the preset registered. -/
def withDaily : TaiMCP String Unit Unit := (oneTool.register suffixing "daily" daily).1

theorem mirrors_daily : Mirrors suffixing "daily" daily withDaily := by
  have hbranches : oneTool.toolRegistry.branches "daily" = [] := by decide +kernel
  have hclear : ∀ x, oneTool.Torn "daily" x ↔ x = "daily" := by
    unfold Torn
    rw [hbranches]
    exact fun x => or_iff_left List.not_mem_nil
  have hbase : oneTool.presetBase suffixing "daily" daily = some .capability := by decide +kernel
  have hnames : presetNames suffixing "daily" daily .capability = some ["daily"] := by
    decide +kernel
  have hregistered := (registered_register hclear hbase hnames (by decide +kernel)).2
  exact hregistered.mirrors hnames (by decide +kernel) (by decide +kernel)

/-- A reload whose new base tool is missing leaves the preset as it was. -/
theorem kept_reload_daily : Kept withDaily
    (withDaily.reload suffixing (some { baseTool := "gone" }) (fun _ => false) "daily").1
    "daily" := by
  refine (kept_reload_iff (c := daily) (by decide +kernel) (by decide +kernel)
    (by decide +kernel)).mpr ⟨⟨_, rfl, ?_⟩, fun _ => rfl, mirrors_daily⟩
  decide +kernel

/-- A preset that its captured spec could bind again is dropped by a reload whose read raises, and
by one whose new branch is to have the name of the base tool. -/
theorem not_kept_reload :
    withDaily.specs.lookup "daily" = some daily ∧ Mirrors suffixing "daily" daily withDaily ∧
      ((withDaily.removeRegistration "daily").register suffixing "daily" daily).2 = true ∧
      ((withDaily.reload suffixing none (fun _ => false) "daily").2 = false ∧
        ¬Kept withDaily (withDaily.reload suffixing none (fun _ => false) "daily").1 "daily") ∧
      ∃ body : PresetBody String Unit,
        (withDaily.reload suffixing (some body) (fun _ => false) "daily").2 = false ∧
        ¬Kept withDaily (withDaily.reload suffixing (some body) (fun _ => false) "daily").1
          "daily" := by
  have hspec : withDaily.specs.lookup "daily" = some daily := by decide +kernel
  refine ⟨hspec, mirrors_daily, by decide +kernel, ⟨by decide +kernel, ?_⟩,
    { baseTool := "daily_audited", extensions := [["audited"]] }, by decide +kernel, ?_⟩
  · exact not_kept hspec (by decide +kernel)
  · exact not_kept hspec (by decide +kernel)

end TaiMCP

end TaiSkeleton.Tools
