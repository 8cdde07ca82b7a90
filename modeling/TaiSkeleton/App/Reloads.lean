import TaiSkeleton.App.ToolLinks

/-!
# The tool edge over reloads

No operation body is passed through the tool edge as long as the steps of the worker spare the
tools that stay dispatchable. A failed reload can put back tools that the maps it leaves do not
lead to their operation, and then the resolver says of an operation that it is none.
-/

namespace TaiSkeleton.Tools

open Lib

variable {ε υ μ : Type} [DecidableEq ε] [DecidableEq υ]

/-! ## The condition -/

namespace World

/-- What a step must find for the tools that stay dispatchable to keep their links. A bind, a
teardown or a new spec touches no name that one of them was made over; an operation is projected
under no name of a preset; and where a failed reload puts the captured tools back on a populated
registry, the maps lead each that is an operation to it. -/
def Spares (plugins : Plugins ε υ) (s : World ε υ μ) : Act ε υ μ → Prop
  | .bindModuleTool name | .bindHandlerTool name =>
    s.app.Spares (fun _ => False) fun x =>
      ∃ names, s.app.toBind plugins name .capability = some names ∧
        x ∈ TaiMCP.reached s.app.live names
  | .bindMcp _ names => s.app.Spares (fun _ => False) (TaiMCP.McpBinds plugins s.app names)
  | .project op =>
    ∀ names, s.app.toBind plugins op (.operation op) = some names →
      if ∀ x ∈ names, x ∉ s.app.live then
        s.app.Spares (fun _ => False) (· ∈ names) ∧ ∀ x ∈ names, x ∉ s.app.specs
      else s.app.Spares (fun _ => True) (· ∈ TaiMCP.reached s.app.live names)
  | .restore =>
    ∀ before, s.stage = .failing (some before) → s.app.operations.keys ≠ [] →
      ∀ name tool op, before.lookup name = some tool → tool.operation? = some op →
        s.app.LedTo name tool op
  | .registerPreset name body | .reloadRead name (some body) =>
    s.app.RegisterSpares plugins name body
  | .reloadRestore name =>
    ∀ captured, s.reloading.lookup name = some (.restoring captured) →
      s.app.RegisterSpares plugins name captured
  | .reloadPreset name | .removePreset name => s.app.Spares (s.app.Torn name) (s.app.Torn name)
  | .fanOutRemove name =>
    name ∉ s.app.quarantine → s.app.Spares (s.app.Torn name) (s.app.Torn name)
  | .rehydrate => s.app.Spares (fun _ => False) (· ∈ s.app.specs)
  | .rehydrateOne =>
    match s.rehydrating with
    | some (.binding _ _ _ _ (some (name, body))) => s.app.RegisterSpares plugins name body
    | some (.binding prior _ live ((name, body) :: _) none) =>
      name ∈ live → name ∈ prior →
        if prior.lookup name = some body then s.app.Spares (fun _ => False) (· = name)
        else s.app.Spares (s.app.Torn name) (s.app.Torn name)
    | _ => True
  | .reloadMcp title names =>
    s.app.Spares (· ∈ s.app.mcpBound title) fun x =>
      s.app.GoesWith (s.app.mcpBound title) x ∨ TaiMCP.McpBinds plugins s.app names x
  | .deregisterMcp title =>
    s.app.Spares (· ∈ s.app.mcpBound title) (s.app.GoesWith (s.app.mcpBound title))
  | .reconcileOne =>
    match s.stage with
    | .reconciling _ _ (some (name, body)) => s.app.RegisterSpares plugins name body
    | .reconciling _ (name :: _) none =>
      name ∈ s.app.specs → s.app.Spares (s.app.Torn name) (s.app.Torn name)
    | _ => True
  | _ => True

/-! ## The invariant -/

/-- `start` initializes the components. -/
def isInitializing (s : World ε υ μ) : Prop := ∃ before, s.stage = .initializing before

/-- The registry has records, or it is being populated. -/
def IsPopulated (s : World ε υ μ) : Prop := s.app.operations.keys ≠ [] ∨ s.isInitializing

/-- The tools of the main server that are about to be replaced do not count. -/
def Linked (s : World ε υ μ) : Prop := s.app.Linked fun _ => s.stage.serves = false

/-- On a populated registry each dispatchable tool is linked. -/
def Inv (s : World ε υ μ) : Prop := s.IsPopulated → s.Linked

section

omit [DecidableEq ε] [DecidableEq υ]

variable {s s' : World ε υ μ}

theorem isPopulated_of_step (hoperations : s'.app.operations = s.app.operations)
    (hinit : s'.isInitializing → s.isInitializing) (h : s'.IsPopulated) : s.IsPopulated := by
  refine h.imp (fun hkeys => ?_) hinit
  rwa [hoperations] at hkeys

/-- A step that keeps the registry and what of the main server counts keeps the invariant where it
keeps the tools linked. -/
theorem Inv.same (h : s.Inv) (hserves : s'.stage.serves = s.stage.serves)
    (hoperations : s'.app.operations = s.app.operations)
    (hinit : s'.isInitializing → s.isInitializing)
    (hlinked : ∀ down, (s.app.Linked fun _ => down) → s'.app.Linked fun _ => down) : s'.Inv := by
  intro hpopulated
  unfold Linked
  rw [hserves]
  exact hlinked _ (h (isPopulated_of_step hoperations hinit hpopulated))

/-- A step that gives the tools of the main server up keeps the invariant where it keeps the cached
sub-MCP apps linked. -/
theorem Inv.fails {before : Option (Dict Tool)} (h : s.Inv) (hserves : s.stage.serves = true)
    (hstage : s'.stage = .failing before)
    (hoperations : s'.app.operations = s.app.operations)
    (hlinked : (s.app.Linked fun _ => False) → s'.app.Linked fun _ => True) : s'.Inv := by
  intro hpopulated
  have hinit : s'.isInitializing → s.isInitializing := by
    rintro ⟨_, hinit⟩
    rw [hstage] at hinit
    cases hinit
  have hold := h (isPopulated_of_step hoperations hinit hpopulated)
  unfold Linked at hold ⊢
  rw [hserves] at hold
  rw [hstage]
  have htrue : (fun _ : String => (Stage.failing before : Stage ε υ).serves = false) =
      fun _ => True := by
    funext _
    exact eq_true rfl
  have hfalse : (fun _ : String => true = false) = fun _ => False := by
    funext _
    exact eq_false Bool.noConfusion
  rw [hfalse] at hold
  rw [htrue]
  exact hlinked hold

end

/-! ## The steps -/

section

variable {s s' : World ε υ μ} {a : Act ε υ μ} {plugins : Plugins ε υ}

/-- A bind whose exception nothing catches goes on, or leaves the cached sub-MCP apps. -/
theorem Inv.bound {before : Option (Dict Tool)} {result : TaiMCP ε υ μ × Bool} (h : s.Inv)
    (hstage : s.stage = .initializing before)
    (hoperations : result.1.operations = s.app.operations)
    (hok : result.2 = true → ∀ down, (s.app.Linked fun _ => down) → result.1.Linked fun _ => down)
    (hfails : result.2 = false → (s.app.Linked fun _ => False) → result.1.Linked fun _ => True) :
    (s.bound before result).Inv := by
  obtain ⟨app, ok⟩ := result
  cases ok with
  | true => exact h.same rfl hoperations id (hok rfl)
  | false =>
    have hserves : s.stage.serves = true := by rw [hstage]; rfl
    exact h.fails hserves rfl hoperations fun hlinked => (hfails rfl hlinked).rebuilt

theorem Inv.reloadNext (h : s.Inv) (hspares : s.Spares plugins a)
    (hnext : s.reloadNext plugins a = some s') : s'.Inv := by
  cases a with
  | reloadConfig =>
    simp only [World.reloadNext] at hnext
    split at hnext
    · next hstage =>
      obtain rfl := Option.some.inj hnext
      refine h.same (by rw [hstage]; rfl) rfl ?_ fun _ => id
      rintro ⟨_, hinit⟩
      cases hinit
    · cases hnext
  | start requestedTools toolExtensions =>
    simp only [World.reloadNext] at hnext
    split at hnext
    · obtain rfl := Option.some.inj hnext
      exact fun _ => TaiMCP.linked_startOver requestedTools toolExtensions
    · cases hnext
  | resetRaises =>
    simp only [World.reloadNext] at hnext
    split at hnext
    · next before hstage =>
      obtain rfl := Option.some.inj hnext
      refine h.fails (by rw [hstage]; rfl) rfl rfl fun hlinked => ?_
      refine hlinked.cached.frame ?_ rfl rfl fun _ => id
      rintro name tool (hlive | ⟨slug, tools, hcache, -⟩)
      · exact .inl hlive
      · cases hcache
    · cases hnext
  | declare name metadata =>
    simp only [World.reloadNext] at hnext
    split at hnext
    · next before hstage =>
      obtain rfl := Option.some.inj hnext
      exact fun _ => (h (.inr ⟨before, hstage⟩)).declareOperation name metadata
    · cases hnext
  | bindModuleTool name =>
    simp only [World.reloadNext] at hnext
    split at hnext
    · obtain rfl := Option.some.inj hnext
      have hadds := TaiMCP.addsOthers_bindToolFunc plugins none name s.app
      exact h.same rfl hadds.operations id fun down hlinked =>
        hlinked.addsOthers hadds hspares.of_all
    · cases hnext
  | bindMcp title names =>
    simp only [World.reloadNext] at hnext
    split at hnext
    · next before hstage =>
      obtain rfl := Option.some.inj hnext
      have hadds := TaiMCP.addsOthers_mcpTools plugins title names s.app
      refine h.bound hstage hadds.operations ?_ ?_
      · exact fun _ down hlinked => hlinked.addsOthers hadds hspares.of_all
      · exact fun _ hlinked => (hlinked.addsOthers hadds hspares).cached
    · cases hnext
  | project op =>
    simp only [World.reloadNext] at hnext
    split at hnext
    · next before hstage =>
      obtain ⟨hop, hnext⟩ := Option.ite_none_right_eq_some.mp hnext
      obtain rfl := Option.some.inj hnext
      refine h.bound hstage (TaiMCP.operations_bindToolFunc plugins none op _ s.app) ?_ ?_
      · intro hok down hlinked
        obtain ⟨names, hnames, hfree⟩ := TaiMCP.bindToolFunc_ok.mp hok
        have hspares := hspares names hnames
        rw [if_pos hfree] at hspares
        exact hlinked.project hop hnames hfree hspares.2 hspares.1.of_all
      · intro hfails hlinked
        refine hlinked.projectFails fun names hnames => ?_
        have htaken : ¬∀ x ∈ names, x ∉ s.app.live := by
          intro hfree
          rw [TaiMCP.bindToolFunc_ok.mpr ⟨names, hnames, hfree⟩] at hfails
          cases hfails
        have hspares := hspares names hnames
        rwa [if_neg htaken] at hspares
    · cases hnext
  | raises =>
    simp only [World.reloadNext] at hnext
    split at hnext
    · next before hstage =>
      obtain rfl := Option.some.inj hnext
      exact h.fails (by rw [hstage]; rfl) rfl rfl fun hlinked => hlinked.cached.rebuilt
    · cases hnext
  | validate ignore =>
    simp only [World.reloadNext] at hnext
    split at hnext
    · next before hstage =>
      split_ifs at hnext
      · obtain rfl := Option.some.inj hnext
        refine h.same (by rw [hstage]; rfl) rfl ?_ fun _ hlinked => hlinked.rebuilt
        rintro ⟨_, hinit⟩
        cases hinit
      · obtain rfl := Option.some.inj hnext
        exact h.fails (by rw [hstage]; rfl) rfl rfl fun hlinked => hlinked.cached.rebuilt
    · cases hnext
  | bindHandlerTool name =>
    simp only [World.reloadNext] at hnext
    split at hnext
    · obtain rfl := Option.some.inj hnext
      have hadds := TaiMCP.addsOthers_bindToolFunc plugins none name s.app
      exact h.same rfl hadds.operations id fun down hlinked =>
        hlinked.addsOthers hadds hspares.of_all
    · cases hnext
  | handlerRaises =>
    simp only [World.reloadNext] at hnext
    split at hnext
    · next hstage =>
      obtain rfl := Option.some.inj hnext
      refine h.same (by rw [hstage]; rfl) rfl ?_ fun _ => id
      rintro ⟨_, hinit⟩
      cases hinit
    · cases hnext
  | handled =>
    simp only [World.reloadNext] at hnext
    split at hnext
    · next before hstage _ =>
      obtain rfl := Option.some.inj hnext
      exact h.fails (by rw [hstage]; rfl) rfl rfl fun hlinked => hlinked.cached
    · next hstage _ =>
      obtain rfl := Option.some.inj hnext
      refine h.same (by rw [hstage]; rfl) rfl ?_ fun _ => id
      rintro ⟨_, hinit⟩
      cases hinit
    · cases hnext
  | restore =>
    simp only [World.reloadNext] at hnext
    split at hnext
    · next before hstage =>
      obtain rfl := Option.some.inj hnext
      intro hpopulated
      have hkeys : s.app.operations.keys ≠ [] := by
        refine hpopulated.resolve_right ?_
        rintro ⟨_, hinit⟩
        cases hinit
      have hcached := h (.inl hkeys)
      rintro name tool op (⟨hlive, -⟩ | hheld) hop
      · exact hspares before hstage hkeys name tool op hlive hop
      · exact hcached name tool op (.inr hheld) hop
    · next hstage =>
      obtain rfl := Option.some.inj hnext
      refine h.same (by rw [hstage]; rfl) rfl ?_ fun _ => id
      rintro ⟨_, hinit⟩
      cases hinit
    · cases hnext
  | _ => cases hnext

theorem Inv.presetNext (h : s.Inv) (hspares : s.Spares plugins a)
    (hnext : s.presetNext plugins a = some s') : s'.Inv := by
  cases a with
  | registerPreset name body =>
    simp only [World.presetNext] at hnext
    obtain ⟨-, hnext⟩ := Option.ite_none_left_eq_some.mp hnext
    obtain rfl := Option.some.inj hnext
    exact h.same rfl (TaiMCP.operations_register plugins name body s.app) id
      fun _ hlinked => hlinked.register hspares
  | reloadPreset name =>
    simp only [World.presetNext] at hnext
    obtain ⟨-, hnext⟩ := Option.ite_none_left_eq_some.mp hnext
    obtain rfl := Option.some.inj hnext
    exact h.same rfl rfl id fun _ hlinked => hlinked.removeRegistration hspares
  | reloadRead name body =>
    simp only [World.presetNext] at hnext
    split at hnext
    · obtain rfl := Option.some.inj hnext
      exact h.same rfl rfl id fun _ => id
    · next captured body hreading =>
      split at hnext
      all_goals
        obtain rfl := Option.some.inj hnext
        exact h.same rfl (TaiMCP.operations_register plugins name body s.app) id
          fun _ hlinked => hlinked.register hspares
    · cases hnext
  | reloadRestore name =>
    simp only [World.presetNext] at hnext
    split at hnext
    · next captured hrestoring =>
      obtain rfl := Option.some.inj hnext
      exact h.same rfl (TaiMCP.operations_register plugins name captured s.app) id
        fun _ hlinked => hlinked.register (hspares captured hrestoring)
    · cases hnext
  | removePreset name =>
    simp only [World.presetNext] at hnext
    obtain ⟨-, hnext⟩ := Option.ite_none_left_eq_some.mp hnext
    obtain rfl := Option.some.inj hnext
    exact h.same rfl rfl id fun _ hlinked => hlinked.removeRegistration hspares
  | fanOutRemove name =>
    simp only [World.presetNext] at hnext
    split_ifs at hnext with hquarantined hlocked
    · obtain rfl := Option.some.inj hnext
      exact h.same rfl rfl id fun _ hlinked => hlinked.dropQuarantine
    · obtain rfl := Option.some.inj hnext
      exact h.same rfl rfl id fun _ hlinked =>
        (hlinked.removeRegistration (hspares hquarantined)).dropQuarantine
  | _ => cases hnext

theorem Inv.rehydrateNext (h : s.Inv) (hspares : s.Spares plugins a)
    (hnext : s.rehydrateNext plugins a = some s') : s'.Inv := by
  cases a with
  | rehydrate =>
    simp only [World.rehydrateNext] at hnext
    split at hnext
    · obtain rfl := Option.some.inj hnext
      exact h.same rfl rfl id fun _ hlinked => hlinked.clearSpecs hspares
    · cases hnext
  | rehydrateRead records =>
    cases records with
    | none =>
      simp only [World.rehydrateNext] at hnext
      split at hnext
      · obtain rfl := Option.some.inj hnext
        refine h.same ?_ rfl ?_ fun _ => id
        · show s.stage.handlerRaised.serves = s.stage.serves
          cases s.stage <;> rfl
        · rintro ⟨before, hinit⟩
          have hinit : s.stage.handlerRaised = .initializing before := hinit
          cases hstage : s.stage with
          | initializing before' => exact ⟨before', hstage⟩
          | _ =>
            rw [hstage] at hinit
            cases hinit
      · cases hnext
    | some records =>
      simp only [World.rehydrateNext] at hnext
      split at hnext
      · obtain rfl := Option.some.inj hnext
        exact h.same rfl rfl id fun _ => id
      · cases hnext
  | rehydrateOne =>
    simp only [World.rehydrateNext] at hnext
    split at hnext
    · next prior presetNames live records name body hbinding =>
      simp only [World.Spares, hbinding] at hspares
      obtain rfl := Option.some.inj hnext
      refine h.same rfl ?_ id fun _ hlinked => ?_
      · have hoperations := TaiMCP.operations_register plugins name body s.app
        show (if _ then _ else _ : TaiMCP ε υ μ).operations = _
        split_ifs <;> exact hoperations
      · have hregister := hlinked.register hspares
        show (if _ then _ else _ : TaiMCP ε υ μ).Linked _
        split_ifs
        · exact hregister
        · exact hregister.quarantineAs .registrationFailed
    · next prior presetNames live name body records hbinding =>
      simp only [World.Spares, hbinding] at hspares
      obtain rfl := Option.some.inj hnext
      exact h.same rfl TaiMCP.operations_rehydrateOne id fun _ hlinked =>
        hlinked.rehydrateOne hspares
    · obtain rfl := Option.some.inj hnext
      exact h.same rfl rfl id fun _ => id
    · cases hnext
  | _ => cases hnext

theorem Inv.mcpNext (h : s.Inv) (hspares : s.Spares plugins a)
    (hnext : s.mcpNext plugins a = some s') : s'.Inv := by
  cases a with
  | reloadMcp title names =>
    simp only [World.mcpNext] at hnext
    split at hnext
    · next hstage =>
      have hoperations := TaiMCP.operations_applyReloadedMcp plugins title names s.app
      have hlinked : ∀ down, (s.app.Linked fun _ => down) →
          (s.app.applyReloadedMcp plugins title names).1.Linked fun _ => down :=
        fun down hlinked => hlinked.applyReloadedMcp hspares
      split at hnext
      · next app heq =>
        rw [heq] at hoperations hlinked
        obtain rfl := Option.some.inj hnext
        exact h.same rfl hoperations id hlinked
      · next app affected heq =>
        rw [heq] at hoperations hlinked
        obtain rfl := Option.some.inj hnext
        refine h.same (by rw [hstage]; rfl) hoperations ?_ hlinked
        rintro ⟨_, hinit⟩
        cases hinit
    · cases hnext
  | deregisterMcp title =>
    simp only [World.mcpNext] at hnext
    split at hnext
    · next hstage =>
      obtain rfl := Option.some.inj hnext
      refine h.same (by rw [hstage]; rfl) rfl ?_ fun _ hlinked => hlinked.deregisterMcp hspares
      rintro ⟨_, hinit⟩
      cases hinit
    · cases hnext
  | reconcileOne =>
    simp only [World.mcpNext] at hnext
    split at hnext
    · next live pending name body hstage =>
      simp only [World.Spares, hstage] at hspares
      obtain rfl := Option.some.inj hnext
      refine h.same (by rw [hstage]; rfl) ?_ ?_ fun _ hlinked => ?_
      · have hoperations := TaiMCP.operations_register plugins name body s.app
        show (if _ then _ else _ : TaiMCP ε υ μ).operations = _
        split_ifs <;> exact hoperations
      · rintro ⟨_, hinit⟩
        cases hinit
      · have hregister := hlinked.register hspares
        show (if _ then _ else _ : TaiMCP ε υ μ).Linked _
        split_ifs
        · exact hregister
        · exact hregister.quarantineAs .reRegisterFailed
    · next live name pending hstage =>
      simp only [World.Spares, hstage] at hspares
      obtain ⟨-, hnext⟩ := Option.ite_none_left_eq_some.mp hnext
      split at hnext
      · obtain rfl := Option.some.inj hnext
        refine h.same (by rw [hstage]; rfl) rfl ?_ fun _ => id
        rintro ⟨_, hinit⟩
        cases hinit
      · next body hspec =>
        obtain rfl := Option.some.inj hnext
        have hmem : name ∈ s.app.specs := AList.lookup_isSome.mp (by rw [hspec]; rfl)
        refine h.same (by rw [hstage]; rfl) TaiMCP.operations_reconcileOne ?_ fun _ hlinked =>
          hlinked.reconcileOne (hspares hmem)
        rintro ⟨_, hinit⟩
        cases hinit
    · next hstage =>
      obtain rfl := Option.some.inj hnext
      refine h.same (by rw [hstage]; rfl) rfl ?_ fun _ => id
      rintro ⟨_, hinit⟩
      cases hinit
    · cases hnext
  | _ => cases hnext

omit [DecidableEq ε] [DecidableEq υ] in
theorem Inv.routerNext (h : s.Inv) (hnext : s.routerNext a = some s') : s'.Inv := by
  cases a with
  | registerSubMcpApp slug config =>
    obtain rfl := Option.some.inj hnext
    refine h.same rfl rfl id fun _ hlinked => hlinked.frame ?_ rfl rfl fun _ => id
    exact fun name tool hstay => hstay.imp_right (TaiMCP.Cached.of_erase rfl)
  | unregisterSubMcpApp slug =>
    obtain rfl := Option.some.inj hnext
    refine h.same rfl rfl id fun _ hlinked => hlinked.frame ?_ rfl rfl fun _ => id
    exact fun name tool hstay => hstay.imp_right (TaiMCP.Cached.of_erase rfl)
  | buildSubApp slug =>
    simp only [World.routerNext] at hnext
    obtain ⟨hserves, hnext⟩ := Option.ite_none_right_eq_some.mp hnext
    obtain ⟨app, hbuild, rfl⟩ := Option.map_eq_some_iff.mp hnext
    intro hpopulated
    have hoperations : ({ s with app } : World ε υ μ).app.operations = s.app.operations :=
      TaiMCP.operations_buildSubApp hbuild
    have hold := h (isPopulated_of_step hoperations id hpopulated)
    refine TaiMCP.Linked.buildSubApp (fun _ hgone => ?_) hold hbuild
    rw [hserves] at hgone
    cases hgone
  | _ => cases hnext

/-- One step that spares the dispatchable tools keeps them linked. -/
theorem Inv.next (h : s.Inv) (hspares : s.Spares plugins a) (hnext : s.next plugins a = some s') :
    s'.Inv := by
  obtain ⟨-, hnext⟩ := Option.ite_none_right_eq_some.mp hnext
  rcases (Option.orElse_eq_some _ _ _).mp hnext with hreload | ⟨-, hnext⟩
  · exact h.reloadNext hspares hreload
  rcases (Option.orElse_eq_some _ _ _).mp hnext with hpreset | ⟨-, hnext⟩
  · exact h.presetNext hspares hpreset
  rcases (Option.orElse_eq_some _ _ _).mp hnext with hrehydrate | ⟨-, hnext⟩
  · exact h.rehydrateNext hspares hrehydrate
  rcases (Option.orElse_eq_some _ _ _).mp hnext with hmcp | ⟨-, hrouter⟩
  · exact h.mcpNext hspares hmcp
  · exact h.routerNext hrouter

omit [DecidableEq ε] [DecidableEq υ] in
/-- A worker at its boot has no tool to link. -/
theorem inv_boot : ({} : World ε υ μ).Inv := by
  rintro (hkeys | ⟨_, hinit⟩)
  · exact absurd rfl hkeys
  · cases hinit

end

end World

/-! ## Every dispatch -/

/-- In every state that steps which spare the dispatchable tools lead to, with the reload gate free,
the name of each dispatchable tool whose body is an operation resolves to that operation, or the
surface is not settled; it is never passed through. -/
theorem resolved_of_spared {plugins : Plugins ε υ} {s : World ε υ μ}
    (h : ((toolSurface plugins).when fun s a => s.Spares plugins a).Reachable s)
    (hfree : s.stage = .free) {name op : String} {tool : Tool}
    (hdispatchable : s.app.Dispatchable name tool) (hop : tool.operation? = some op)
    (callArguments : Kwargs υ) :
    (∃ metadata arguments, s.app.operations.lookup op = some metadata ∧
      s.app.resolveDispatch name callArguments = .ok (some ⟨metadata, arguments⟩)) ∨
    ∃ error, s.app.resolveDispatch name callArguments = .error error := by
  have hinv : s.Inv := by
    refine h.invariant ?_ ?_
    · rintro _ rfl
      exact World.inv_boot
    · rintro s a s' hinv ⟨hspares, hnext⟩
      exact hinv.next hspares hnext
  by_cases hkeys : s.app.operations.keys = []
  · right
    refine TaiMCP.resolveDispatch_of_unsettled ?_ name callArguments
    unfold TaiMCP.settled
    rw [hkeys]
    exact Bool.and_false _
  · have hstays : s.app.Stays (fun _ => s.stage.serves = false) name tool := by
      refine hdispatchable.imp_left fun hlive => ⟨hlive, ?_⟩
      rw [hfree]
      exact Bool.noConfusion
    obtain ⟨hleads, hmem⟩ := hinv (.inl hkeys) name tool op hstays hop
    obtain ⟨metadata, hmetadata⟩ := Option.isSome_iff_exists.mp (AList.lookup_isSome.mpr hmem)
    refine (TaiMCP.resolveDispatch_of_leads hleads hmetadata callArguments).imp_left ?_
    rintro ⟨arguments, hok⟩
    exact ⟨metadata, arguments, hmetadata, hok⟩

/-! ## Boots and reloads -/

/-- Plugins whose extensions add their own name to that of the function they wrap. -/
def suffixing : Plugins String Unit where
  extend extension _ name := some (name ++ "_" ++ extension)
  bakes _ _ := true

/-- The workers with these plugins. -/
def sampleSurface : System (World String Unit Unit) (Act String Unit Unit) :=
  toolSurface suffixing

/-- The world that a list of steps leads to from the boot. -/
def runActs (acts : List (Act String Unit Unit)) : Option (World String Unit Unit) :=
  acts.foldlM (fun s a => s.next suffixing a) {}

/-- A boot that projects one operation, with one extension branch of it. -/
def bootActs : List (Act String Unit Unit) :=
  [.start ["get_report"] [("get_report", [["audited"]])], .declare "get_report" (),
    .project "get_report", .validate [], .handled]

/-- The boot, and a reload that fails when it imports a module after the operations are back. -/
def failedReloadActs : List (Act String Unit Unit) :=
  bootActs ++ [.reloadConfig, .start ["get_report"] [("get_report", [["audited"]])],
    .declare "get_report" (), .raises, .restore]

/-- The branch of the projected operation. -/
def auditedReport : Tool := .over "get_report" (.operation "get_report")

/-- The gate is free, the branch is on the main server, and its dispatch has a verdict. -/
def passesAudited (verdict : Option (ResolvedDispatch Unit Unit)) (s : World String Unit Unit) :
    Bool :=
  decide (s.stage = .free) &&
    decide (s.app.live.lookup "get_report_audited" = some auditedReport) &&
    decide (s.app.resolveDispatch "get_report_audited" ∅ = .ok verdict)

/-- Whether a step of a boot spares what there is: no tool is there when the operation is
projected. -/
def bootSpares (s : World String Unit Unit) : Act String Unit Unit → Bool
  | .start _ _ | .declare _ _ | .validate _ | .handled => true
  | .project _ =>
    decide (s.app.live.keys = []) && decide (s.app.serverCache.keys = []) &&
      decide (s.app.specs.keys = [])
  | _ => false

theorem spares_of_bootSpares {s : World String Unit Unit} {a : Act String Unit Unit}
    (h : bootSpares s a = true) : s.Spares suffixing a := by
  cases a with
  | start _ _ => trivial
  | declare _ _ => trivial
  | validate _ => trivial
  | handled => trivial
  | project op =>
    unfold bootSpares at h
    rw [Bool.and_eq_true, Bool.and_eq_true, decide_eq_true_iff, decide_eq_true_iff,
      decide_eq_true_iff] at h
    obtain ⟨⟨hlive, hcache⟩, hspecs⟩ := h
    intro names _
    have hfree : ∀ x ∈ names, x ∉ s.app.live := by
      intro x _
      rw [AList.mem_keys, hlive]
      exact List.not_mem_nil
    rw [if_pos hfree]
    refine ⟨.of_empty hlive hcache, fun x _ => ?_⟩
    rw [AList.mem_keys, hspecs]
    exact List.not_mem_nil
  | _ => cases h

/-- After the boot the branch resolves to its operation. -/
theorem resolved_after_boot :
    ∃ s, (sampleSurface.when fun s a => s.Spares suffixing a).Reachable s ∧
      s.stage = .free ∧ s.app.Dispatchable "get_report_audited" auditedReport ∧
      auditedReport.operation? = some "get_report" ∧
      ((∃ metadata arguments, s.app.operations.lookup "get_report" = some metadata ∧
        s.app.resolveDispatch "get_report_audited" ∅ = .ok (some ⟨metadata, arguments⟩)) ∨
      ∃ error, s.app.resolveDispatch "get_report_audited" ∅ = .error error) := by
  have hrun : (bootActs.foldlM (System.guarded (fun s a => s.next suffixing a) bootSpares)
      {}).any (passesAudited (some ⟨(), ∅⟩)) = true := by decide +kernel
  obtain ⟨s, hreachable, hs⟩ := System.Reachable.of_foldlM
    (S := sampleSurface.when fun s a => s.Spares suffixing a)
    (fun s a s' h => ⟨spares_of_bootSpares (System.step_of_guarded h).1,
      (System.step_of_guarded h).2⟩) rfl hrun
  unfold passesAudited at hs
  rw [Bool.and_eq_true, Bool.and_eq_true, decide_eq_true_iff, decide_eq_true_iff] at hs
  obtain ⟨⟨hfree, hlive⟩, -⟩ := hs
  exact ⟨s, hreachable, hfree, .inl hlive, rfl,
    resolved_of_spared hreachable hfree (.inl hlive) rfl ∅⟩

/-- After a reload that failed between the new registries and the projection, the branch is put
back, nothing says what it is a branch of, and its dispatch is passed through. -/
theorem passed_after_failed_reload :
    ∃ s, sampleSurface.Reachable s ∧ s.stage = .free ∧
      s.app.Dispatchable "get_report_audited" auditedReport ∧
      auditedReport.operation? = some "get_report" ∧
      s.app.resolveDispatch "get_report_audited" ∅ = .ok none := by
  have hrun : (runActs failedReloadActs).any (passesAudited none) = true := by decide +kernel
  obtain ⟨s, hreachable, hs⟩ :=
    System.Reachable.of_foldlM (S := sampleSurface) (fun _ _ _ h => h) rfl hrun
  unfold passesAudited at hs
  rw [Bool.and_eq_true, Bool.and_eq_true, decide_eq_true_iff, decide_eq_true_iff,
    decide_eq_true_iff] at hs
  obtain ⟨⟨hfree, hlive⟩, hverdict⟩ := hs
  exact ⟨s, hreachable, hfree, .inl hlive, rfl, hverdict⟩

/-- A reload that succeeds can leave an operation under the spec of a preset: its name was the
preset's, and the rehydration takes the operation for it. -/
example : (runActs
    [.start [] [], .declare "get_report" (), .bindModuleTool "status", .validate [], .handled,
      .registerPreset "weekly" { baseTool := "status" }, .reloadConfig, .start [] [],
      .declare "weekly" (), .bindModuleTool "status", .project "weekly", .validate [],
      .rehydrate, .rehydrateRead (some [("weekly", some { baseTool := "status" })]),
      .rehydrateOne, .rehydrateOne, .handled]).any (fun s =>
        decide (s.stage = .free) &&
          decide (s.app.live.lookup "weekly" = some (.operation "weekly")) &&
          decide (s.app.resolveDispatch "weekly" ∅ = .ok none)) = true := by
  decide +kernel

/-- A cached sub-MCP app keeps a preset that was removed. -/
example : (runActs (bootActs ++
    [.registerPreset "daily" { baseTool := "get_report" },
      .registerSubMcpApp "team" { tools := ["daily"] }, .buildSubApp "team",
      .removePreset "daily"])).any (fun s =>
        decide (s.stage = .free) && decide ("daily" ∉ s.app.live) &&
          decide ((s.app.serverCache.lookup "team").join.any fun tools =>
            tools.lookup "daily" == some (.over "get_report" (.operation "get_report"))) &&
          decide (s.app.resolveDispatch "daily" ∅ = .ok none)) = true := by
  decide +kernel

end TaiSkeleton.Tools
