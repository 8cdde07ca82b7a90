import TaiSkeleton.App.Reloads

/-!
# Tools of other owners

The preset engine tears a preset down by its name and by the branches that the registry lists for
the name. The tools that no preset owns are left alone as long as what it binds was free and what it
tears down was a preset.
-/

namespace TaiSkeleton.Tools

open Lib

variable {ε υ μ : Type}

/-! ## What one operation leaves of a tool -/

namespace TaiMCP

/-- A name is bound to the same body and has the same base as before. -/
def Untouched (app app' : TaiMCP ε υ μ) (x : String) : Prop :=
  app'.live.lookup x = app.live.lookup x ∧
    app'.toolRegistry.extendTools.lookup x = app.toolRegistry.extendTools.lookup x

/-- A registration that goes ahead finds each name that it is to bind free, and no tool bound as a
branch of its own name. -/
def BindsFree (plugins : Plugins ε υ) (name : String) (body : PresetBody ε υ)
    (app : TaiMCP ε υ μ) : Prop :=
  ∀ base ∈ app.presetBase plugins name body,
    (∀ x ∈ app.toolRegistry.branches name, x ∉ app.live) ∧
      ∀ names ∈ presetNames plugins name body base, ∀ x ∈ names, x ∉ app.live

instance (plugins : Plugins ε υ) (name : String) (body : PresetBody ε υ) (app : TaiMCP ε υ μ) :
    Decidable (app.BindsFree plugins name body) := by
  unfold BindsFree
  infer_instance

section

variable {app app' app'' : TaiMCP ε υ μ} {names : List String} {name x : String} {tool : Tool}
  {body : PresetBody ε υ} {plugins : Plugins ε υ}

theorem Untouched.refl (app : TaiMCP ε υ μ) (x : String) : Untouched app app x := ⟨rfl, rfl⟩

theorem Untouched.trans (h : Untouched app app' x) (h' : Untouched app' app'' x) :
    Untouched app app'' x :=
  ⟨h'.1.trans h.1, h'.2.trans h.2⟩

theorem Untouched.live (h : Untouched app app' x) (hlive : x ∈ app.live) : x ∈ app'.live := by
  rw [← AList.lookup_isSome] at hlive ⊢
  rwa [h.1]

theorem untouched_removeRegistration (h : ¬app.Torn name x) :
    Untouched app (app.removeRegistration name) x := by
  obtain ⟨hname, hbranch⟩ := not_or.mp h
  constructor
  · show AList.lookup x (AList.erase name _) = _
    rw [AList.lookup_erase_ne hname, ToolRegistry.lookup_foldl_erase, if_neg hbranch]
  · exact (app.toolRegistry.lookup_unregisterToolBase name x).trans (if_neg h)

/-- Seeding the combos of a preset touches no tool. -/
theorem untouched_seeded {toolRegistry : ToolRegistry ε}
    (hextend : toolRegistry.extendTools = app.toolRegistry.extendTools) :
    Untouched app { app with toolRegistry } x :=
  ⟨rfl, congrArg (AList.lookup x) hextend⟩

theorem Binds.untouched (h : Binds app app' name tool names) (hx : x ∉ reached app.live names) :
    Untouched app app' x :=
  ⟨(h.live x).resolve_right fun hnew => hx hnew.1, (h.base x).trans (if_neg hx)⟩

theorem mem_specs_removeRegistration {n : String} (h : n ∈ (app.removeRegistration name).specs) :
    n ∈ app.specs :=
  (AList.mem_erase.mp h).2

theorem untouched_checkBase {presetNames live : List String} :
    Untouched app (app.checkBase presetNames live name body).1 x := by
  unfold checkBase
  split_ifs
  · exact .refl app x
  · exact .refl app x
  · exact .refl app x

theorem specs_checkBase {presetNames live : List String} :
    (app.checkBase presetNames live name body).1.specs = app.specs := by
  unfold checkBase
  split_ifs
  · rfl
  · rfl
  · rfl

/-- What `_rehydrate_one` tears down was a preset before. -/
theorem untouched_rehydrateOne [DecidableEq ε] [DecidableEq υ] {prior : Dict (PresetBody ε υ)}
    {presetNames live : List String} (h : name ∈ prior → ¬app.Torn name x) :
    Untouched app (app.rehydrateOne prior presetNames live name body).1 x := by
  unfold TaiMCP.rehydrateOne
  split_ifs with hforeign _ hbound
  · exact .refl app x
  · exact .refl app x
  · have hprior : name ∈ prior := by
      by_contra hnot
      exact hforeign ⟨hbound, hnot⟩
    exact (untouched_removeRegistration (h hprior)).trans untouched_checkBase
  · exact untouched_checkBase

theorem mem_specs_rehydrateOne [DecidableEq ε] [DecidableEq υ] {prior : Dict (PresetBody ε υ)}
    {presetNames live : List String} {n : String}
    (h : n ∈ (app.rehydrateOne prior presetNames live name body).1.specs) :
    n ∈ app.specs ∨ n ∈ prior := by
  unfold TaiMCP.rehydrateOne at h
  split_ifs at h with _ hsame
  · exact .inl h
  · rcases (AList.mem_insert _).mp h with rfl | h
    · exact .inr (AList.lookup_isSome.mp (by rw [hsame.2]; rfl))
    · exact .inl h
  · rw [specs_checkBase] at h
    exact .inl (mem_specs_removeRegistration h)
  · rw [specs_checkBase] at h
    exact .inl h

/-- What a registration does to the bound tools of others: it touches none, and a name that is
newly in the spec map is neither a tool's own nor its base. -/
structure Registers (app app' : TaiMCP ε υ μ) : Prop where
  untouched : ∀ x ∈ app.live, Untouched app app' x
  specs : ∀ n ∈ app'.specs, n ∈ app.specs ∨
    ∀ x ∈ app.live, x ≠ n ∧ app.toolRegistry.extendTools.lookup x ≠ some n

theorem Registers.quarantineAs (h : Registers app app') (reason : QuarantineReason) :
    Registers app (app'.quarantineAs name reason) :=
  ⟨h.untouched, h.specs⟩

variable [DecidableEq ε]

theorem registers_register (h : app.BindsFree plugins name body) :
    Registers app (app.register plugins name body).1 := by
  have hregistration := registration_register plugins name body app
  generalize (app.register plugins name body).1 = result at hregistration ⊢
  cases hregistration with
  | refused _ => exact ⟨fun x _ => .refl app x, fun n hn => .inl hn⟩
  | @unnamed base toolRegistry hbase hextend _ =>
    obtain ⟨-, hname, -⟩ := presetBase_eq_some hbase
    obtain ⟨hbranches, -⟩ := h base hbase
    refine ⟨fun x hx => ?_, fun n hn => .inl (mem_specs_removeRegistration hn)⟩
    refine (untouched_seeded hextend).trans (untouched_removeRegistration ?_)
    rintro (rfl | hbranch)
    · exact hname hx
    · unfold ToolRegistry.branches at hbranch
      rw [show ({ app with toolRegistry } : TaiMCP ε υ μ).toolRegistry.extendTools = _ from
        hextend] at hbranch
      exact hbranches x hbranch hx
  | @bound base toolRegistry names app' hbase hextend _ hfree hbinds =>
    obtain ⟨-, hname, -⟩ := presetBase_eq_some hbase
    obtain ⟨hbranches, -⟩ := h base hbase
    refine ⟨fun x hx => ?_, fun n hn => ?_⟩
    · refine (untouched_seeded hextend).trans ?_
      exact hbinds.untouched fun hreached => hfree x (reached_subset hreached) hx
    · rcases (AList.mem_insert _).mp hn with rfl | hn
      · refine .inr fun x hx => ⟨?_, fun hbase => ?_⟩
        · rintro rfl
          exact hname hx
        · refine hbranches x (ToolRegistry.mem_branches.mpr ⟨hbase, ?_⟩) hx
          rintro rfl
          exact hname hx
      · rw [hbinds.specs] at hn
        exact .inl hn
  | @tornDown base _ _ _ hbase _ hnames htaken _ => exact absurd ((h base hbase).2 _ hnames) htaken

end

end TaiMCP

/-! ## The engine -/

namespace World

/-- The spec map that a `rehydrate` has put aside. -/
def prior (s : World ε υ μ) : Dict (PresetBody ε υ) :=
  match s.rehydrating with
  | none => ∅
  | some (.reading prior) => prior
  | some (.binding prior _ _ _ _) => prior

/-- A preset of this worker. -/
def IsPreset (s : World ε υ μ) (name : String) : Prop := name ∈ s.app.specs ∨ name ∈ s.prior

/-- A preset owns the tool of its name and the branches of it. -/
def Owns (s : World ε υ μ) (name x : String) : Prop :=
  s.IsPreset name ∧ (x = name ∨ s.app.toolRegistry.extendTools.lookup x = some name)

/-- The name that a step is about, if it is about one. -/
def named (s : World ε υ μ) : Act ε υ μ → Option String
  | .registerPreset name _ | .reloadPreset name | .reloadRead name _ | .reloadRestore name
  | .removePreset name | .fanOutRemove name => some name
  | .rehydrateOne =>
    match s.rehydrating with
    | some (.binding _ _ _ _ (some (name, _))) => some name
    | some (.binding _ _ _ ((name, _) :: _) none) => some name
    | _ => none
  | _ => none

/-- The preset that a step is to register. -/
def registers (s : World ε υ μ) : Act ε υ μ → Option (String × PresetBody ε υ)
  | .registerPreset name body => some (name, body)
  | .reloadRead name body => body.map (name, ·)
  | .reloadRestore name =>
    match s.reloading.lookup name with
    | some (.restoring captured) => some (name, captured)
    | _ => none
  | .rehydrateOne =>
    match s.rehydrating with
    | some (.binding _ _ _ _ current) => current
    | _ => none
  | _ => none

/-- The name that a step tears down whoever owns it. -/
def tears (s : World ε υ μ) : Act ε υ μ → Option String
  | .reloadPreset name | .removePreset name => some name
  | .fanOutRemove name => if name ∈ s.app.quarantine then none else some name
  | _ => none

/-- What is registered binds free names, and what is torn down is a preset or no tool at all. -/
def KeepsOff (plugins : Plugins ε υ) (s : World ε υ μ) (a : Act ε υ μ) : Prop :=
  (∀ preset ∈ s.registers a, s.app.BindsFree plugins preset.1 preset.2) ∧
    ∀ name ∈ s.tears a, s.IsPreset name ∨ ∀ x ∈ s.app.live.keys, ¬s.app.Torn name x

instance (s : World ε υ μ) (name : String) : Decidable (s.IsPreset name) :=
  inferInstanceAs (Decidable (_ ∨ _))

instance (app : TaiMCP ε υ μ) (name x : String) : Decidable (app.Torn name x) :=
  inferInstanceAs (Decidable (_ ∨ _))

instance (plugins : Plugins ε υ) (s : World ε υ μ) (a : Act ε υ μ) :
    Decidable (s.KeepsOff plugins a) :=
  inferInstanceAs (Decidable (_ ∧ _))

/-- A tool is as it was, and no other preset owns it. -/
structure Keeps (s s' : World ε υ μ) (x : String) : Prop where
  untouched : s.app.Untouched s'.app x
  owners : ∀ n, s'.Owns n x → s.Owns n x

section

variable {s s' : World ε υ μ} {name x : String} {app : TaiMCP ε υ μ}

/-- A tool that a step leaves alone gets no owner where the presets do not grow. -/
theorem Keeps.of_untouched (h : s.app.Untouched s'.app x)
    (hpresets : ∀ n, s'.IsPreset n → s.IsPreset n ∨
      x ≠ n ∧ s.app.toolRegistry.extendTools.lookup x ≠ some n) : s.Keeps s' x := by
  refine ⟨h, fun n ⟨hpreset, howns⟩ => ?_⟩
  rw [h.2] at howns
  refine ⟨(hpresets n hpreset).resolve_right fun hforeign => ?_, howns⟩
  exact howns.elim hforeign.1 hforeign.2

/-- A step that changes neither the tools nor the presets. -/
theorem Keeps.same (hlive : s'.app.live = s.app.live)
    (hregistry : s'.app.toolRegistry = s.app.toolRegistry)
    (hpresets : ∀ n, s'.IsPreset n → s.IsPreset n) : s.Keeps s' x := by
  refine .of_untouched ⟨by rw [hlive], by rw [hregistry]⟩ fun n hn => .inl (hpresets n hn)

theorem Keeps.registered (hlive : x ∈ s.app.live) (h : s.app.Registers app)
    (happ : s'.app = app) (hprior : s'.prior = s.prior) : s.Keeps s' x := by
  subst happ
  refine .of_untouched (h.untouched x hlive) fun n hn => ?_
  rcases hn with hspec | hspec
  · exact (h.specs n hspec).imp .inl fun hforeign => hforeign x hlive
  · rw [hprior] at hspec
    exact .inl (.inr hspec)

/-- A preset, or a name under which no tool is torn down, is torn down beside a tool that it does
not own. -/
theorem not_torn (hlive : x ∈ s.app.live) (hforeign : ¬s.Owns name x)
    (h : s.IsPreset name ∨ ∀ x ∈ s.app.live.keys, ¬s.app.Torn name x) :
    ¬s.app.Torn name x := by
  rcases h with hpreset | hfree
  · exact fun htorn => hforeign ⟨hpreset, htorn.imp_right fun hbranch =>
      (ToolRegistry.mem_branches.mp hbranch).1⟩
  · exact hfree x (AList.mem_keys.mp hlive)

theorem Keeps.removed (htorn : ¬s.app.Torn name x)
    (hregistry : s'.app.toolRegistry = (s.app.removeRegistration name).toolRegistry)
    (hlive : s'.app.live = (s.app.removeRegistration name).live)
    (hspecs : s'.app.specs = (s.app.removeRegistration name).specs)
    (hprior : s'.prior = s.prior) : s.Keeps s' x := by
  have huntouched := TaiMCP.untouched_removeRegistration htorn
  refine .of_untouched ?_ fun n hn => .inl ?_
  · unfold TaiMCP.Untouched
    rw [hlive, hregistry]
    exact huntouched
  · unfold IsPreset at hn ⊢
    rw [hspecs, hprior] at hn
    exact hn.imp_left TaiMCP.mem_specs_removeRegistration

end

section

variable [DecidableEq ε] {s s' : World ε υ μ} {a : Act ε υ μ} {x : String}
  {plugins : Plugins ε υ}

theorem keeps_presetNext (h : s.presetNext plugins a = some s') (hlive : x ∈ s.app.live)
    (hkeeps : s.KeepsOff plugins a) (hforeign : ∀ n ∈ s.named a, ¬s.Owns n x) : s.Keeps s' x := by
  obtain ⟨hregisters, htears⟩ := hkeeps
  cases a with
  | registerPreset name body =>
    obtain ⟨-, h⟩ := Option.ite_none_left_eq_some.mp h
    obtain rfl := Option.some.inj h
    exact .registered hlive (TaiMCP.registers_register (hregisters _ rfl)) rfl rfl
  | reloadPreset name =>
    obtain ⟨-, h⟩ := Option.ite_none_left_eq_some.mp h
    obtain rfl := Option.some.inj h
    exact .removed (not_torn hlive (hforeign name rfl) (htears name rfl)) rfl rfl rfl rfl
  | reloadRead name body =>
    cases body with
    | none =>
      simp only [presetNext] at h
      split at h <;> try contradiction
      obtain rfl := Option.some.inj h
      exact .same rfl rfl fun _ => id
    | some body =>
      have hregister := TaiMCP.registers_register (hregisters _ rfl)
      cases hreloading : s.reloading.lookup name with
      | none =>
        simp only [presetNext, hreloading] at h
        cases h
      | some reloading =>
        cases reloading with
        | restoring _ =>
          simp only [presetNext, hreloading] at h
          cases h
        | reading captured =>
          simp only [presetNext, hreloading] at h
          split at h
          · obtain rfl := Option.some.inj h
            exact .registered hlive hregister rfl rfl
          · obtain rfl := Option.some.inj h
            exact .registered hlive hregister rfl rfl
  | reloadRestore name =>
    simp only [presetNext] at h
    split at h
    · next captured hreloading =>
      obtain rfl := Option.some.inj h
      have hmem : (name, captured) ∈ s.registers (.reloadRestore name) := by
        unfold registers
        simp only [hreloading]
        rfl
      exact .registered hlive (TaiMCP.registers_register (hregisters _ hmem)) rfl rfl
    · cases h
  | removePreset name =>
    obtain ⟨-, h⟩ := Option.ite_none_left_eq_some.mp h
    obtain rfl := Option.some.inj h
    exact .removed (not_torn hlive (hforeign name rfl) (htears name rfl)) rfl rfl rfl rfl
  | fanOutRemove name =>
    simp only [presetNext] at h
    split_ifs at h with hquarantine
    · obtain rfl := Option.some.inj h
      exact .same rfl rfl fun _ => id
    · obtain rfl := Option.some.inj h
      have hmem : name ∈ s.tears (.fanOutRemove name) := if_neg hquarantine
      exact .removed (not_torn hlive (hforeign name rfl) (htears name hmem)) rfl rfl rfl rfl
  | _ => cases h

variable [DecidableEq υ]

theorem keeps_rehydrateNext (h : s.rehydrateNext plugins a = some s') (hlive : x ∈ s.app.live)
    (hkeeps : s.KeepsOff plugins a) (hforeign : ∀ n ∈ s.named a, ¬s.Owns n x) : s.Keeps s' x := by
  obtain ⟨hregisters, -⟩ := hkeeps
  cases a with
  | rehydrate =>
    simp only [rehydrateNext] at h
    split at h
    · next hidle =>
      obtain rfl := Option.some.inj h
      refine .same rfl rfl fun n hn => .inl ?_
      exact hn.resolve_left (AList.notMem_empty n)
    · cases h
  | rehydrateRead records =>
    cases records with
    | none =>
      simp only [rehydrateNext] at h
      split at h <;> try contradiction
      obtain rfl := Option.some.inj h
      refine .same rfl rfl fun n hn => hn.imp_right fun hmem => ?_
      exact absurd hmem (AList.notMem_empty n)
    | some records =>
      simp only [rehydrateNext] at h
      split at h <;> try contradiction
      next prior hreading =>
      obtain rfl := Option.some.inj h
      refine .same rfl rfl fun n hn => hn.imp_right fun hmem => ?_
      unfold World.prior
      rw [hreading]
      exact hmem
  | rehydrateOne =>
    cases hrehydrating : s.rehydrating with
    | none =>
      simp only [rehydrateNext, hrehydrating] at h
      cases h
    | some rehydration =>
      cases rehydration with
      | reading _ =>
        simp only [rehydrateNext, hrehydrating] at h
        cases h
      | binding prior presetNames live records current =>
        have hprior : s.prior = prior := by
          unfold World.prior
          rw [hrehydrating]
        cases current with
        | some current =>
          obtain ⟨name, body⟩ := current
          have hmem : (name, body) ∈ s.registers .rehydrateOne := by
            unfold registers
            simp only [hrehydrating]
            rfl
          have hregister := TaiMCP.registers_register (hregisters _ hmem)
          simp only [rehydrateNext, hrehydrating] at h
          obtain rfl := Option.some.inj h
          split_ifs
          · exact .registered hlive hregister rfl hprior.symm
          · exact .registered hlive (hregister.quarantineAs _) rfl hprior.symm
        | none =>
          cases records with
          | cons record records =>
            obtain ⟨name, body⟩ := record
            have hmem : name ∈ s.named .rehydrateOne := by
              unfold named
              simp only [hrehydrating]
              rfl
            have hnot : name ∈ prior → ¬s.app.Torn name x := fun hmem' =>
              not_torn hlive (hforeign name hmem) (.inl (.inr (hprior ▸ hmem')))
            simp only [rehydrateNext, hrehydrating] at h
            obtain rfl := Option.some.inj h
            refine .of_untouched (TaiMCP.untouched_rehydrateOne hnot) fun n hn => .inl ?_
            unfold IsPreset
            rw [hprior]
            exact hn.elim TaiMCP.mem_specs_rehydrateOne .inr
          | nil =>
            simp only [rehydrateNext, hrehydrating] at h
            obtain rfl := Option.some.inj h
            refine .same rfl rfl fun n hn => hn.imp_right fun hmem => ?_
            exact absurd hmem (AList.notMem_empty n)
  | _ => cases h

end

/-- The step of the preset engine. -/
def engineNext [DecidableEq ε] [DecidableEq υ] (plugins : Plugins ε υ) (s : World ε υ μ)
    (a : Act ε υ μ) : Option (World ε υ μ) :=
  s.presetNext plugins a <|> s.rehydrateNext plugins a

end World

/-- The preset engine, at work from any state on. -/
def presetEngine [DecidableEq ε] [DecidableEq υ] (plugins : Plugins ε υ) :
    System (World ε υ μ) (Act ε υ μ) where
  init _ := True
  step s a s' := s.engineNext plugins a = some s'

section

variable [DecidableEq ε] [DecidableEq υ] {s s' : World ε υ μ} {x : String}
  {plugins : Plugins ε υ}

/-- One step of the engine keeps the tools that the preset it is about does not own. -/
theorem keeps_presetEngine {a : Act ε υ μ} (h : (presetEngine plugins).step s a s')
    (hlive : x ∈ s.app.live) (hkeeps : s.KeepsOff plugins a)
    (hforeign : ∀ n ∈ s.named a, ¬s.Owns n x) : s.Keeps s' x := by
  rcases (Option.orElse_eq_some _ _ _).mp h with hpreset | ⟨-, hrehydrate⟩
  · exact World.keeps_presetNext hpreset hlive hkeeps hforeign
  · exact World.keeps_rehydrateNext hrehydrate hlive hkeeps hforeign

/-- The engine leaves alone the tools that none of the presets it works on owns, in every run of
it that registers free names and tears presets down. -/
theorem untouched_of_keepsOff (worked : String → Prop)
    (hrun : ((presetEngine plugins).when fun s a =>
      s.KeepsOff plugins a ∧ ∀ n ∈ s.named a, worked n).Run s s')
    (hlive : x ∈ s.app.live) (hforeign : ∀ n, worked n → ¬s.Owns n x) :
    s'.app.live.lookup x = s.app.live.lookup x ∧
      s'.app.toolRegistry.extendTools.lookup x = s.app.toolRegistry.extendTools.lookup x := by
  suffices s.Keeps s' x from this.untouched
  refine hrun.invariant (p := fun s' => s.Keeps s' x) ?_ ⟨.refl s.app x, fun _ => id⟩
  rintro s₁ a s₂ hkept ⟨⟨hkeeps, hnamed⟩, hstep⟩
  have hnext := keeps_presetEngine hstep (hkept.untouched.live hlive) hkeeps fun n hn howns =>
    hforeign n (hnamed n hn) (hkept.owners n howns)
  refine ⟨hkept.untouched.trans hnext.untouched, fun n howns => ?_⟩
  exact hkept.owners n (hnext.owners n howns)

end

/-! ## A tool of another owner -/

/-- A boot that binds two tools of a module. -/
def bootForeignActs : List (Act String Unit Unit) :=
  [.start [] [], .bindModuleTool "get_report", .bindModuleTool "daily_audited", .validate [],
    .handled]

/-- The tool is bound and nothing is a preset. -/
def hasForeign (s : World String Unit Unit) : Bool :=
  decide ("daily_audited" ∈ s.app.live) && decide (s.app.specs.keys = []) &&
    decide (s.prior.keys = [])

theorem foreign_of_hasForeign {s : World String Unit Unit} (h : hasForeign s = true) :
    "daily_audited" ∈ s.app.live ∧ ∀ n, ¬s.Owns n "daily_audited" := by
  unfold hasForeign at h
  rw [Bool.and_eq_true, Bool.and_eq_true, decide_eq_true_iff, decide_eq_true_iff,
    decide_eq_true_iff] at h
  obtain ⟨⟨hlive, hspecs⟩, hprior⟩ := h
  refine ⟨hlive, fun n howns => ?_⟩
  rcases howns.1 with hmem | hmem
  · rw [AList.mem_keys, hspecs] at hmem
    cases hmem
  · rw [AList.mem_keys, hprior] at hmem
    cases hmem

/-- A preset that is registered without extensions and removed again leaves the tool. -/
theorem untouched_by_plain_preset :
    ∃ s s' : World String Unit Unit, s.app.live.lookup "daily_audited" = some .capability ∧
      (presetEngine suffixing).Run s s' ∧
      s'.app.live.lookup "daily_audited" = s.app.live.lookup "daily_audited" ∧
      s'.app.toolRegistry.extendTools.lookup "daily_audited" =
        s.app.toolRegistry.extendTools.lookup "daily_audited" := by
  have hboot : (runActs bootForeignActs).any (fun s => hasForeign s &&
      decide (s.app.live.lookup "daily_audited" = some .capability) &&
      ([.registerPreset "daily" { baseTool := "get_report" }, .removePreset "daily"].foldlM
        (System.guarded (World.engineNext suffixing) fun s a =>
          decide (s.KeepsOff suffixing a ∧ ∀ n ∈ s.named a, n = "daily")) s).isSome) = true := by
    decide +kernel
  obtain ⟨s, -, hs⟩ := System.Reachable.of_foldlM (S := sampleSurface) (fun _ _ _ h => h) rfl hboot
  rw [Bool.and_eq_true, Bool.and_eq_true, decide_eq_true_iff] at hs
  obtain ⟨⟨hforeign, hlookup⟩, hsome⟩ := hs
  obtain ⟨hlive, hforeign⟩ := foreign_of_hasForeign hforeign
  obtain ⟨s', hs'⟩ := Option.isSome_iff_exists.mp hsome
  have hrun := System.Run.of_foldlM
    (S := (presetEngine suffixing).when fun s a => s.KeepsOff suffixing a ∧
      ∀ n ∈ s.named a, n = "daily")
    (fun s a s' h => ⟨of_decide_eq_true (System.step_of_guarded h).1,
      (System.step_of_guarded h).2⟩) hs'
  exact ⟨s, s', hlookup, hrun.of_when,
    untouched_of_keepsOff (· = "daily") hrun hlive fun n _ => hforeign n⟩

/-- A preset whose branch is to have the name of the tool is refused, and the tool is gone. -/
theorem removed_by_failed_register :
    ∃ s s' : World String Unit Unit, sampleSurface.Reachable s ∧ (presetEngine suffixing).Run s s' ∧
      "daily_audited" ∈ s.app.live ∧ (∀ n, ¬s.Owns n "daily_audited") ∧
      "daily_audited" ∉ s'.app.live := by
  have hboot : (runActs bootForeignActs).any (fun s => hasForeign s &&
      (s.engineNext suffixing (.registerPreset "daily"
        { baseTool := "get_report", extensions := [["audited"]] })).any fun s' =>
          decide ("daily_audited" ∉ s'.app.live)) = true := by
    decide +kernel
  obtain ⟨s, hreachable, hs⟩ :=
    System.Reachable.of_foldlM (S := sampleSurface) (fun _ _ _ h => h) rfl hboot
  rw [Bool.and_eq_true, Option.any_eq_true] at hs
  obtain ⟨hforeign, s', hs', hgone⟩ := hs
  obtain ⟨hlive, hforeign⟩ := foreign_of_hasForeign hforeign
  have hrun : (presetEngine suffixing).Run s s' := .single hs'
  exact ⟨s, s', hreachable, hrun, hlive, hforeign, of_decide_eq_true hgone⟩

/-- A reload of a name that is no preset's takes the tool of that name away before it looks. -/
example : (runActs (bootForeignActs ++ [.reloadPreset "daily_audited"])).any (fun s =>
    decide ("daily_audited" ∉ s.app.live)) = true := by
  decide +kernel

end TaiSkeleton.Tools
