import TaiSkeleton.Tools.BakedLinks

/-!
# Binding over tool objects that are kept

Tool objects outlive the maps: the sub-MCP apps keep those of their build. Each fits the maps as
long as no name that one of them was made under is bound again to another base, or with another
value of a parameter of the path.
-/

namespace TaiSkeleton.Tools

open Lib Authz

variable {ε υ : Type}

namespace Surface

/-! ## The tool objects of a worker -/

/-- The tools of a map under their names. -/
def pairs (tools : Dict (BakedTool υ)) : List (String × BakedTool υ) :=
  tools.entries.map fun entry => (entry.1, entry.2)

/-- The tool objects that a call can reach, now or once a build ends. -/
def kept (s : Surface ε υ) : List (String × BakedTool υ) :=
  pairs s.live ++ s.serverCache.entries.flatMap (fun entry => pairs (entry.2.getD ∅)) ++
    s.building.entries.flatMap fun entry => pairs entry.2.tools

variable {s s' : Surface ε υ} {name origName : String} {made : String × BakedTool υ}

theorem mem_pairs {tools : Dict (BakedTool υ)} :
    made ∈ pairs tools ↔ tools.lookup made.1 = some made.2 := by
  unfold pairs
  rw [List.mem_map]
  constructor
  · rintro ⟨entry, hentry, rfl⟩
    exact AList.mem_lookup_iff.mpr hentry
  · intro h
    exact ⟨⟨made.1, made.2⟩, AList.mem_lookup_iff.mp h, rfl⟩

theorem mem_kept : made ∈ s.kept ↔ s.live.lookup made.1 = some made.2 ∨
    (∃ slug tools, s.serverCache.lookup slug = some (some tools) ∧
      tools.lookup made.1 = some made.2) ∨
    ∃ slug build, s.building.lookup slug = some build ∧
      build.tools.lookup made.1 = some made.2 := by
  unfold kept
  rw [List.mem_append, List.mem_append, mem_pairs, or_assoc, List.mem_flatMap, List.mem_flatMap]
  refine or_congr_right (or_congr ?_ ?_)
  · constructor
    · rintro ⟨⟨slug, subApp⟩, hentry, hmade⟩
      cases subApp with
      | none => exact nomatch mem_pairs.mp hmade
      | some tools => exact ⟨slug, tools, AList.mem_lookup_iff.mpr hentry, mem_pairs.mp hmade⟩
    · rintro ⟨slug, tools, hentry, hmade⟩
      exact ⟨⟨slug, some tools⟩, AList.mem_lookup_iff.mp hentry, mem_pairs.mpr hmade⟩
  · constructor
    · rintro ⟨⟨slug, build⟩, hentry, hmade⟩
      exact ⟨slug, build, AList.mem_lookup_iff.mpr hentry, mem_pairs.mp hmade⟩
    · rintro ⟨slug, build, hentry, hmade⟩
      exact ⟨⟨slug, build⟩, AList.mem_lookup_iff.mp hentry, mem_pairs.mpr hmade⟩

/-- The tool objects fit the maps, and no operation's own name has a link. -/
structure Faithful (s : Surface ε υ) : Prop where
  unlinked : ∀ op ∈ s.operations, s.linkOf op = none
  fits : ∀ made ∈ s.kept, ∀ body, made.2.operation? = some body → ∃ op, s.Fits op made.1 made.2

/-! ## What a step does to the links -/

/-- The operation that the body of a tool object is. -/
def operationOf (s : Surface ε υ) (tool : BakedTool υ) : Option OperationMetadata :=
  tool.operation?.bind fun body => s.operations.lookup body

/-- No tool object was made under the name with another base, or with another value of a path
parameter that the link bakes. -/
def Spared (s : Surface ε υ) (name : String) (link : Link υ) : Prop :=
  ∀ made ∈ s.kept, ∀ op ∈ s.operationOf made.2, ∀ inner ∈ made.2.links made.1,
    inner.1 = name → link.Agrees op.pathParams inner.2

instance [DecidableEq υ] (s : Surface ε υ) (name : String) (link : Link υ) :
    Decidable (s.Spared name link) :=
  inferInstanceAs (Decidable (∀ made ∈ s.kept, ∀ op ∈ s.operationOf made.2,
    ∀ inner ∈ made.2.links made.1, inner.1 = name → link.Agrees op.pathParams inner.2))

/-- A name keeps its link, loses it, or has one that spares the tool objects. -/
structure Relinks (s s' : Surface ε υ) : Prop where
  operations : s'.operations = s.operations
  link : ∀ x, s'.linkOf x = none ∨ s'.linkOf x = s.linkOf x ∨
    ∃ link, s'.linkOf x = some link ∧ x ∉ s.operations ∧ s.Spared x link

theorem Fits.operationOf {op : OperationMetadata} (h : s.Fits op made.1 made.2) :
    s.operationOf made.2 = some op := by
  unfold Surface.operationOf
  rw [h.body]
  exact h.operation

theorem Relinks.fits (h : Relinks s s') {op : OperationMetadata} (hkept : made ∈ s.kept)
    (hfits : s.Fits op made.1 made.2) : s'.Fits op made.1 made.2 where
  operation := by
    rw [h.operations]
    exact hfits.operation
  body := hfits.body
  apart inner hinner := by
    rw [h.operations]
    exact hfits.apart inner hinner
  agrees inner hinner link hlink := by
    rcases h.link inner.1 with hnone | hsame | ⟨link', hlink', -, hspared⟩
    · exact absurd (hnone.symm.trans hlink) nofun
    · exact hfits.agrees inner hinner link (hsame.symm.trans hlink)
    · obtain rfl := Option.some.inj (hlink'.symm.trans hlink)
      exact hspared made hkept op hfits.operationOf inner hinner rfl

theorem Faithful.relinks (h : s.Faithful) (hrelinks : Relinks s s')
    (hkept : ∀ made ∈ s'.kept, made ∈ s.kept ∨
      ∀ body, made.2.operation? = some body → ∃ op, s'.Fits op made.1 made.2) : s'.Faithful where
  unlinked op hop := by
    rw [hrelinks.operations] at hop
    rcases hrelinks.link op with hnone | hsame | ⟨-, -, hapart, -⟩
    · exact hnone
    · exact hsame.trans (h.unlinked op hop)
    · exact absurd hop hapart
  fits made hmade body hbody := by
    rcases hkept made hmade with hold | hnew
    · obtain ⟨op, hfits⟩ := h.fits made hold body hbody
      exact ⟨op, hrelinks.fits hold hfits⟩
    · exact hnew body hbody

/-- A step that takes links and tool objects away. -/
structure Shrinks (s s' : Surface ε υ) : Prop where
  operations : s'.operations = s.operations
  link : ∀ x, s'.linkOf x = none ∨ s'.linkOf x = s.linkOf x
  kept : ∀ made ∈ s'.kept, made ∈ s.kept

theorem Faithful.shrinks (h : s.Faithful) (hshrinks : Shrinks s s') : s'.Faithful :=
  h.relinks ⟨hshrinks.operations, fun x => (hshrinks.link x).imp_right .inl⟩
    fun made hmade => .inl (hshrinks.kept made hmade)

/-- A step beside the maps, that takes tool objects away or moves them. -/
theorem Shrinks.of_maps (hoperations : s'.operations = s.operations) (hspecs : s'.specs = s.specs)
    (hregistry : s'.toolRegistry = s.toolRegistry) (hkept : ∀ made ∈ s'.kept, made ∈ s.kept) :
    Shrinks s s' :=
  ⟨hoperations, fun x => .inr (linkOf_congr (by rw [hspecs]) (by rw [hregistry])), hkept⟩

theorem Fits.over {op : OperationMetadata} {base : String} {baked : Kwargs υ} {tool : BakedTool υ}
    (h : s.Fits op base tool) (hname : name ∉ s.operations)
    (hlink : ∀ link, s.linkOf name = some link → link = ⟨base, baked⟩) :
    s.Fits op name (.over base baked tool) where
  operation := h.operation
  body := h.body
  apart inner hinner := by
    rcases List.mem_cons.mp hinner with rfl | hinner
    · exact hname
    · exact h.apart inner hinner
  agrees inner hinner link hinnerLink := by
    rcases List.mem_cons.mp hinner with rfl | hinner
    · rw [hlink link hinnerLink]
      exact Link.Agrees.refl _ _
    · exact h.agrees inner hinner link hinnerLink

/-! ## Binding -/

/-- What a bind of some names under a base leaves: a name that it reached has the base for its own,
a tool that it added is the base's or a branch of it, and nothing else is changed. -/
structure Binds (s s' : Surface ε υ) (origName : String) (tool : BakedTool υ)
    (names : List String) : Prop where
  specs : s'.specs = s.specs
  operations : s'.operations = s.operations
  serverCache : s'.serverCache = s.serverCache
  building : s'.building = s.building
  base : ∀ x, s'.toolRegistry.extendTools.lookup x = s.toolRegistry.extendTools.lookup x ∨
    x ∈ names ∧ s'.toolRegistry.extendTools.lookup x = some origName
  live : ∀ x made, s'.live.lookup x = some made → s.live.lookup x = some made ∨
    x ∈ names ∧ x ∉ s.live ∧ s'.toolRegistry.extendTools.lookup x = some origName ∧
      made = layerOf origName tool x

theorem bindTool_taken {tool : BakedTool υ} (h : name ∈ s.live) :
    s.bindTool name origName tool =
      ({ s with toolRegistry := s.toolRegistry.registerExtendTool origName name }, false) :=
  if_pos h

theorem bindTool_free {tool : BakedTool υ} (h : name ∉ s.live) :
    s.bindTool name origName tool =
      ({ s with
        toolRegistry := s.toolRegistry.registerExtendTool origName name
        live := s.live.insert name tool }, true) :=
  if_neg h

theorem lookup_registerExtendTool (registry : ToolRegistry ε) (origName name x : String) :
    (registry.registerExtendTool origName name).extendTools.lookup x =
      if x = name then some origName else registry.extendTools.lookup x := by
  show (registry.extendTools.insert name origName).lookup x = _
  split_ifs with hx
  · rw [hx]
    exact AList.lookup_insert _
  · exact AList.lookup_insert_ne hx

theorem binds_bindTools (origName : String) (tool : BakedTool υ) (names : List String)
    (s : Surface ε υ) : Binds s (s.bindTools origName tool names).1 origName tool names := by
  induction names generalizing s with
  | nil => exact ⟨rfl, rfl, rfl, rfl, fun _ => .inl rfl, fun _ _ h => .inl h⟩
  | cons name names ih =>
    unfold bindTools
    by_cases htaken : name ∈ s.live
    · rw [bindTool_taken htaken]
      refine ⟨rfl, rfl, rfl, rfl, fun x => ?_, fun _ _ h => .inl h⟩
      show (s.toolRegistry.registerExtendTool origName name).extendTools.lookup x = _ ∨ _ ∧
        (s.toolRegistry.registerExtendTool origName name).extendTools.lookup x = _
      rw [lookup_registerExtendTool]
      by_cases hx : x = name
      · exact .inr ⟨List.mem_cons.mpr (.inl hx), if_pos hx⟩
      · exact .inl (if_neg hx)
    · rw [bindTool_free htaken]
      have hrest := ih { s with
        toolRegistry := s.toolRegistry.registerExtendTool origName name
        live := s.live.insert name (layerOf origName tool name) }
      have hfirst (x : String) :
          (s.toolRegistry.registerExtendTool origName name).extendTools.lookup x = _ :=
        lookup_registerExtendTool s.toolRegistry origName name x
      refine ⟨hrest.specs, hrest.operations, hrest.serverCache, hrest.building, fun x => ?_,
        fun x made hmade => ?_⟩
      · rcases hrest.base x with hsame | ⟨hx, hbase⟩
        · replace hsame := hsame.trans (hfirst x)
          by_cases hx : x = name
          · exact .inr ⟨List.mem_cons.mpr (.inl hx), hsame.trans (if_pos hx)⟩
          · exact .inl (hsame.trans (if_neg hx))
        · exact .inr ⟨List.mem_cons_of_mem _ hx, hbase⟩
      · rcases hrest.live x made hmade with hsame | ⟨hx, hfree, hbase, hmade⟩
        · by_cases hx : x = name
          · subst hx
            obtain rfl := Option.some.inj (hsame.symm.trans (AList.lookup_insert _))
            refine .inr ⟨List.mem_cons_self, htaken, ?_, rfl⟩
            rcases hrest.base x with hsame | ⟨-, hbase⟩
            · exact hsame.trans ((hfirst x).trans (if_pos rfl))
            · exact hbase
          · exact .inl ((AList.lookup_insert_ne hx).symm.trans hsame)
        · refine .inr ⟨List.mem_cons_of_mem _ hx, fun hmem => hfree ?_, hbase, hmade⟩
          exact (AList.mem_insert _).mpr (.inr hmem)

/-- A bind that succeeds found its names free. -/
theorem free_of_bindTools {tool : BakedTool υ} {names : List String} {s : Surface ε υ}
    (h : (s.bindTools origName tool names).2 = true) : ∀ x ∈ names, x ∉ s.live := by
  induction names generalizing s with
  | nil => exact fun x hx => nomatch hx
  | cons name names ih =>
    unfold bindTools at h
    by_cases htaken : name ∈ s.live
    · rw [bindTool_taken htaken] at h
      cases h
    · rw [bindTool_free htaken] at h
      intro x hx
      rcases List.mem_cons.mp hx with rfl | hx
      · exact htaken
      · exact fun hmem => ih h x hx ((AList.mem_insert _).mpr (.inr hmem))

theorem Binds.kept {tool : BakedTool υ} {names : List String}
    (h : Binds s s' origName tool names) (hmade : made ∈ s'.kept) :
    made ∈ s.kept ∨ made.1 ∈ names ∧ made.1 ∉ s.live ∧
      s'.toolRegistry.extendTools.lookup made.1 = some origName ∧
      made.2 = layerOf origName tool made.1 := by
  rcases mem_kept.mp hmade with hlive | hcache | hbuild
  · exact (h.live _ _ hlive).imp_left fun hlive => mem_kept.mpr (.inl hlive)
  · rw [h.serverCache] at hcache
    exact .inl (mem_kept.mpr (.inr (.inl hcache)))
  · rw [h.building] at hbuild
    exact .inl (mem_kept.mpr (.inr (.inr hbuild)))

theorem Binds.relinks {tool : BakedTool υ} {names : List String}
    (h : Binds s s' origName tool names)
    (hspares : ∀ x ∈ names, x ≠ origName → x ∉ s.specs →
      x ∉ s.operations ∧ s.Spared x ⟨origName, ∅⟩) : Relinks s s' where
  operations := h.operations
  link x := by
    rcases h.base x with hsame | ⟨hx, hbase⟩
    · exact .inr (.inl (linkOf_congr (by rw [h.specs]) hsame))
    · cases hspec : s.specs.lookup x with
      | some spec =>
        have hspec' : s'.specs.lookup x = some spec := by rw [h.specs, hspec]
        exact .inr (.inl ((linkOf_spec hspec').trans (linkOf_spec hspec).symm))
      | none =>
        have hlink := linkOf_branch (s := s') (by rw [h.specs, hspec]) hbase
        split_ifs at hlink with hne
        · obtain ⟨hapart, hspared⟩ :=
            hspares x hx (Ne.symm hne) (AList.lookup_eq_none.mp hspec)
          exact .inr (.inr ⟨_, hlink, hapart, hspared⟩)
        · exact .inl hlink

theorem Fits.layerOf {op : OperationMetadata} {tool : BakedTool υ} {x : String}
    (h : s.Fits op origName tool) (hapart : x ≠ origName → x ∉ s.operations)
    (hlink : x ≠ origName → ∀ link, s.linkOf x = some link → link = ⟨origName, ∅⟩) :
    s.Fits op x (layerOf origName tool x) := by
  unfold Surface.layerOf
  split_ifs with hx
  · rwa [hx]
  · exact h.over (hapart hx) (hlink hx)

/-! ## The condition -/

section

variable (plugins : Plugins ε υ)

/-- Of the names that the bind of a base takes, a free one has no preset, and a branch is named like
no operation and spares the tool objects. -/
def BindSpares (s : Surface ε υ) (origName : String) (tool : BakedTool υ) : Prop :=
  ∀ names ∈ s.namesOf plugins origName tool, ∀ x ∈ names, (x ∉ s.live → x ∉ s.specs) ∧
    (x ≠ origName → x ∉ s.specs → x ∉ s.operations ∧ s.Spared x ⟨origName, ∅⟩)

/-- The link of a preset, or of a branch of it. -/
def presetLink (name : String) (body : PresetBody ε υ) (x : String) : Link υ :=
  if x = name then ⟨body.baseTool, body.fixedKwargs⟩ else ⟨name, ∅⟩

/-- The names that a preset binds. -/
def presetNames (name : String) (body : PresetBody ε υ) (base : BakedTool υ) :
    Option (List String) :=
  TaiMCP.boundNames plugins name (.over body.baseTool base.plain) ([] :: body.extensions)

/-- A preset that can be bound takes no name of an operation or of another preset, and its links
spare the tool objects. -/
def RegisterSpares (s : Surface ε υ) (name : String) (body : PresetBody ε υ) : Prop :=
  ∀ base ∈ s.presetBase plugins name body, ∀ names ∈ presetNames plugins name body base,
    (∀ x ∈ names, x ∉ s.live) → ∀ x ∈ names,
      x ∉ s.specs ∧ x ∉ s.operations ∧ s.Spared x (presetLink name body x)

/-- The condition on a step: what it binds spares the tool objects. -/
def Spares (s : Surface ε υ) : SurfaceStep ε υ → Prop
  | .bind name => s.BindSpares plugins name .capability
  | .project op => s.BindSpares plugins op (.operation op)
  | .register name body => s.RegisterSpares plugins name body
  | .reloadRead name body => ∀ body' ∈ body, s.RegisterSpares plugins name body'
  | .reloadRestore name =>
    match s.reloading.lookup name with
    | some (.restoring captured) => s.RegisterSpares plugins name captured
    | _ => True
  | _ => True

section

variable [DecidableEq υ]

instance (s : Surface ε υ) (origName : String) (tool : BakedTool υ) :
    Decidable (s.BindSpares plugins origName tool) :=
  inferInstanceAs (Decidable (∀ names ∈ s.namesOf plugins origName tool, ∀ x ∈ names,
    (x ∉ s.live → x ∉ s.specs) ∧
      (x ≠ origName → x ∉ s.specs → x ∉ s.operations ∧ s.Spared x ⟨origName, ∅⟩)))

instance (s : Surface ε υ) (name : String) (body : PresetBody ε υ) :
    Decidable (s.RegisterSpares plugins name body) :=
  inferInstanceAs (Decidable (∀ base ∈ s.presetBase plugins name body,
    ∀ names ∈ presetNames plugins name body base, (∀ x ∈ names, x ∉ s.live) → ∀ x ∈ names,
      x ∉ s.specs ∧ x ∉ s.operations ∧ s.Spared x (presetLink name body x)))

instance (s : Surface ε υ) (a : SurfaceStep ε υ) : Decidable (s.Spares plugins a) :=
  match a with
  | .bind name => inferInstanceAs (Decidable (s.BindSpares plugins name .capability))
  | .project op => inferInstanceAs (Decidable (s.BindSpares plugins op (.operation op)))
  | .register name body => inferInstanceAs (Decidable (s.RegisterSpares plugins name body))
  | .reloadRead name body =>
    inferInstanceAs (Decidable (∀ body' ∈ body, s.RegisterSpares plugins name body'))
  | .reloadRestore name =>
    match hreloading : s.reloading.lookup name with
    | some (.restoring captured) =>
      decidable_of_iff (s.RegisterSpares plugins name captured) (by simp only [Spares, hreloading])
    | some (.reading _) => isTrue (by simp only [Spares, hreloading])
    | none => isTrue (by simp only [Spares, hreloading])
  | .reload _ => isTrue trivial
  | .remove _ => isTrue trivial
  | .registerSubMcpApp _ _ => isTrue trivial
  | .unregisterSubMcpApp _ => isTrue trivial
  | .beginBuild _ => isTrue trivial
  | .takeTool _ => isTrue trivial
  | .finishBuild _ => isTrue trivial

end

end

/-! ## Binding a base -/

variable {plugins : Plugins ε υ}

theorem Faithful.bindToolFunc {tool : BakedTool υ} (h : s.Faithful)
    (hspares : s.BindSpares plugins origName tool)
    (htool : ∀ body, tool.operation? = some body →
      tool = .operation origName ∧ origName ∈ s.operations) :
    (s.bindToolFunc plugins origName tool).1.Faithful := by
  unfold Surface.bindToolFunc
  cases hnames : s.namesOf plugins origName tool with
  | none => exact h
  | some names =>
    have hbinds := binds_bindTools origName tool names s
    have hnamed := hspares names hnames
    have hrelinks := hbinds.relinks fun x hx => (hnamed x hx).2
    refine h.relinks hrelinks fun made hmade => ?_
    refine (hbinds.kept hmade).imp_right fun ⟨hx, hfree, hbase, hlayer⟩ body hbody => ?_
    rw [hlayer] at hbody ⊢
    have hbody : tool.operation? = some body := by
      unfold layerOf at hbody
      split_ifs at hbody <;> exact hbody
    obtain ⟨rfl, hop⟩ := htool body hbody
    obtain ⟨op, hop'⟩ := Option.isSome_iff_exists.mp (AList.lookup_isSome.mpr hop)
    have hroot : (s.bindTools origName (.operation origName) names).1.Fits op origName
        (.operation origName) :=
      ⟨by rw [hbinds.operations]; exact hop', rfl, nofun, nofun⟩
    have hspec : made.1 ∉ s.specs := (hnamed made.1 hx).1 hfree
    refine ⟨op, hroot.layerOf (fun hne => ?_) fun hne link hlink => ?_⟩
    · rw [hbinds.operations]
      exact ((hnamed made.1 hx).2 hne hspec).1
    · have hbranch := linkOf_branch
        (by rw [hbinds.specs]; exact AList.lookup_eq_none.mpr hspec) hbase
      rw [if_pos (Ne.symm hne)] at hbranch
      exact Option.some.inj (hlink.symm.trans hbranch)

/-! ## Presets -/

theorem lookup_live_removeRegistration (s : Surface ε υ) (name x : String) :
    (s.removeRegistration name).live.lookup x =
      if x = name ∨ x ∈ s.toolRegistry.branches name then none else s.live.lookup x := by
  show (AList.erase name _).lookup x = _
  by_cases hx : x = name
  · subst hx
    simp
  · rw [AList.lookup_erase_ne hx, ToolRegistry.lookup_foldl_erase]
    simp only [hx, false_or]

theorem lookup_specs_removeRegistration (s : Surface ε υ) {x : String} (hx : x ≠ name) :
    (s.removeRegistration name).specs.lookup x = s.specs.lookup x :=
  AList.lookup_erase_ne hx

/-- What a bind under a preset's name did is taken back with the preset. -/
theorem Binds.torn {tool : BakedTool υ} {names : List String} (h : Binds s s' name tool names) :
    Shrinks s (s'.removeRegistration name) where
  operations := h.operations
  link x := by
    have hregistry := ToolRegistry.lookup_unregisterToolBase s'.toolRegistry name x
    by_cases hx : x = name
    · left
      subst hx
      exact linkOf_none (AList.lookup_erase _ _) (hregistry.trans (if_pos (.inl rfl)))
    · have hspec : (s'.removeRegistration name).specs.lookup x = s.specs.lookup x := by
        rw [lookup_specs_removeRegistration s' hx, h.specs]
      cases hspec' : s.specs.lookup x with
      | some spec =>
        exact .inr ((linkOf_spec (hspec.trans hspec')).trans (linkOf_spec hspec').symm)
      | none =>
        by_cases hbranch : x ∈ s'.toolRegistry.branches name
        · exact .inl (linkOf_none (hspec.trans hspec') (hregistry.trans (if_pos (.inr hbranch))))
        · replace hregistry := hregistry.trans (if_neg (not_or.mpr ⟨hx, hbranch⟩))
          rcases h.base x with hsame | ⟨-, hbase⟩
          · exact .inr (linkOf_congr hspec (hregistry.trans hsame))
          · exact absurd (ToolRegistry.mem_branches.mpr ⟨hbase, hx⟩) hbranch
  kept made hmade := by
    rcases mem_kept.mp hmade with hlive | hcache | hbuild
    · rw [lookup_live_removeRegistration] at hlive
      obtain ⟨htorn, hlive⟩ := Option.ite_none_left_eq_some.mp hlive
      obtain ⟨hne, hbranch⟩ := not_or.mp htorn
      rcases h.live _ _ hlive with hold | ⟨-, -, hbase, -⟩
      · exact mem_kept.mpr (.inl hold)
      · exact absurd (ToolRegistry.mem_branches.mpr ⟨hbase, hne⟩) hbranch
    · exact mem_kept.mpr (.inr (.inl (h.serverCache ▸ hcache)))
    · exact mem_kept.mpr (.inr (.inr (h.building ▸ hbuild)))

theorem shrinks_removeRegistration (s : Surface ε υ) (name : String) :
    Shrinks s (s.removeRegistration name) :=
  (binds_bindTools name .capability [] s).torn

theorem presetBase_eq_some {body : PresetBody ε υ} {base : BakedTool υ}
    (h : s.presetBase plugins name body = some base) : s.live.lookup body.baseTool = some base := by
  obtain ⟨-, h⟩ := Option.ite_none_left_eq_some.mp h
  exact (Option.filter_eq_some_iff.mp h).1

/-- The seeds of a preset are beside the links. -/
theorem seed_eq [DecidableEq ε] (s : Surface ε υ) (name : String) (body : PresetBody ε υ) :
    ∃ registry, s.seed name body = some { s with toolRegistry := registry } ∧
      registry.extendTools = s.toolRegistry.extendTools ∧
      registry.tools.lookup name = some ([] :: body.extensions) := by
  obtain ⟨registry, hseed, hbases, htools⟩ :=
    s.toolRegistry.registerTool_unregisterTool name body.extensions
  refine ⟨registry, ?_, hbases, htools⟩
  unfold seed
  rw [hseed]
  rfl

/-- The tool objects that a preset adds, each over the base or over the preset. -/
theorem Faithful.bound {body : PresetBody ε υ} {base : BakedTool υ} {names : List String}
    (h : s.Faithful) (hbase : s.live.lookup body.baseTool = some base) (hname : name ∈ names)
    (hspares : ∀ x ∈ names, x ∉ s.specs ∧ x ∉ s.operations ∧ s.Spared x (presetLink name body x))
    (hbinds : Binds s s' name (.over body.baseTool body.fixedKwargs base) names) :
    ({ s' with specs := s'.specs.insert name body } : Surface ε υ).Faithful := by
  have hspec (x : String) (hx : x ≠ name) :
      (s'.specs.insert name body).lookup x = s.specs.lookup x := by
    rw [AList.lookup_insert_ne hx, hbinds.specs]
  have hbranch (x : String) (hx : x ∈ names) (hne : x ≠ name)
      (hbase : s'.toolRegistry.extendTools.lookup x = some name) :
      ({ s' with specs := s'.specs.insert name body } : Surface ε υ).linkOf x =
        some (presetLink name body x) := by
    have hlink := linkOf_branch
      (s := { s' with specs := s'.specs.insert name body })
      ((hspec x hne).trans (AList.lookup_eq_none.mpr (hspares x hx).1)) hbase
    rw [hlink, if_pos (Ne.symm hne), presetLink, if_neg hne]
  have howner : ({ s' with specs := s'.specs.insert name body } : Surface ε υ).linkOf name =
      some (presetLink name body name) := by
    rw [linkOf_spec (AList.lookup_insert s'.specs), presetLink, if_pos rfl]
  have hrelinks : Relinks s { s' with specs := s'.specs.insert name body } := by
    refine ⟨hbinds.operations, fun x => ?_⟩
    by_cases hx : x = name
    · subst hx
      exact .inr (.inr ⟨_, howner, (hspares x hname).2⟩)
    · rcases hbinds.base x with hsame | ⟨hmem, hbase⟩
      · exact .inr (.inl (linkOf_congr (hspec x hx) hsame))
      · exact .inr (.inr ⟨_, hbranch x hmem hx hbase, (hspares x hmem).2⟩)
  refine h.relinks hrelinks fun made hmade => ?_
  refine (hbinds.kept hmade).imp_right fun ⟨hx, _, hlayered, hlayer⟩ root hroot => ?_
  have hroot : base.operation? = some root := by
    rw [hlayer] at hroot
    unfold layerOf at hroot
    split_ifs at hroot <;> exact hroot
  have hkept : (body.baseTool, base) ∈ s.kept := mem_kept.mpr (.inl hbase)
  obtain ⟨op, hfits⟩ := h.fits _ hkept root hroot
  have hapart (x : String) (hx : x ∈ names) : x ∉ s'.operations := by
    rw [hbinds.operations]
    exact (hspares x hx).2.1
  have hpreset : ({ s' with specs := s'.specs.insert name body } : Surface ε υ).Fits op name
      (.over body.baseTool body.fixedKwargs base) := by
    refine (hrelinks.fits hkept hfits).over (hapart name hname) fun link hlink => ?_
    rw [howner, presetLink, if_pos rfl] at hlink
    exact (Option.some.inj hlink).symm
  rw [hlayer]
  refine ⟨op, hpreset.layerOf (fun _ => hapart _ hx) fun hne link hlink => ?_⟩
  rw [hbranch _ hx hne hlayered, presetLink, if_neg hne] at hlink
  exact (Option.some.inj hlink).symm

theorem Faithful.register [DecidableEq ε] {body : PresetBody ε υ} (h : s.Faithful)
    (hspares : s.RegisterSpares plugins name body) :
    (s.register plugins name body).1.Faithful := by
  unfold Surface.register
  cases hbase : s.presetBase plugins name body with
  | none => exact h
  | some base =>
    obtain ⟨registry, hseed, hbases, htools⟩ := s.seed_eq name body
    show (s.bindPreset plugins name body base).1.Faithful
    unfold bindPreset
    rw [hseed]
    have hnamesOf : ({ s with toolRegistry := registry } : Surface ε υ).namesOf plugins name
        (.over body.baseTool body.fixedKwargs base) = presetNames plugins name body base := by
      unfold namesOf presetNames
      rw [show ({ s with toolRegistry := registry } : Surface ε υ).toolRegistry = registry from rfl,
        htools]
      rfl
    -- The seeded surface has the links and the tool objects of the one before.
    have hseeded {s'' : Surface ε υ} {tool : BakedTool υ} {names : List String}
        (hbinds : Binds { s with toolRegistry := registry } s'' name tool names) :
        Binds s s'' name tool names :=
      ⟨hbinds.specs, hbinds.operations, hbinds.serverCache, hbinds.building,
        fun x => hbases ▸ hbinds.base x, hbinds.live⟩
    unfold Surface.bindToolFunc
    dsimp only
    rw [hnamesOf]
    cases hnames : presetNames plugins name body base with
    | none =>
      exact h.shrinks (hseeded (binds_bindTools name .capability [] _)).torn
    | some names =>
      have hbinds := hseeded (binds_bindTools name (.over body.baseTool body.fixedKwargs base) names
        { s with toolRegistry := registry })
      cases hresult : ({ s with toolRegistry := registry } : Surface ε υ).bindTools name
          (.over body.baseTool body.fixedKwargs base) names with
      | mk s'' ok =>
        dsimp only
        rw [hresult] at hbinds ⊢
        cases ok with
        | true =>
          have hfree := free_of_bindTools (congrArg Prod.snd hresult)
          exact h.bound (presetBase_eq_some hbase) (TaiMCP.boundNames_nodup hnames).2
            (hspares base hbase names hnames hfree) hbinds
        | false => exact h.shrinks hbinds.torn

/-! ## Steps -/

/-- What a step leaves of the tool objects that it neither binds nor removes. -/
theorem Shrinks.of_kept (hlive : s'.live = s.live) (hoperations : s'.operations = s.operations)
    (hspecs : s'.specs = s.specs) (hregistry : s'.toolRegistry = s.toolRegistry)
    (hcache : ∀ slug tools x made, s'.serverCache.lookup slug = some (some tools) →
      tools.lookup x = some made → (x, made) ∈ s.kept)
    (hbuild : ∀ slug build x made, s'.building.lookup slug = some build →
      build.tools.lookup x = some made → (x, made) ∈ s.kept) : Shrinks s s' := by
  refine .of_maps hoperations hspecs hregistry fun made hmade => ?_
  rcases mem_kept.mp hmade with hmade | ⟨slug, tools, hentry, hmade⟩ | ⟨slug, build, hentry, hmade⟩
  · exact mem_kept.mpr (.inl (hlive ▸ hmade))
  · exact hcache slug tools _ _ hentry hmade
  · exact hbuild slug build _ _ hentry hmade

theorem kept_of_cache {slug x : String} {tools : Dict (BakedTool υ)} {tool : BakedTool υ}
    (hentry : s.serverCache.lookup slug = some (some tools)) (h : tools.lookup x = some tool) :
    (x, tool) ∈ s.kept :=
  mem_kept.mpr (.inr (.inl ⟨slug, tools, hentry, h⟩))

theorem kept_of_building {slug x : String} {build : SubAppBuild υ} {tool : BakedTool υ}
    (hentry : s.building.lookup slug = some build) (h : build.tools.lookup x = some tool) :
    (x, tool) ∈ s.kept :=
  mem_kept.mpr (.inr (.inr ⟨slug, build, hentry, h⟩))

/-- An entry that is left after an erasure was there before. -/
theorem lookup_of_erase {β : Type} {d : Dict β} {slug x : String} {b : β}
    (h : (d.erase slug).lookup x = some b) : d.lookup x = some b := by
  by_cases hx : x = slug
  · subst hx
    rw [AList.lookup_erase] at h
    cases h
  · rwa [AList.lookup_erase_ne hx] at h

/-- An entry after an insertion is the one inserted, or was there before. -/
theorem lookup_of_insert {β : Type} {d : Dict β} {slug x : String} {b b' : β}
    (h : (d.insert slug b').lookup x = some b) : b = b' ∨ d.lookup x = some b := by
  by_cases hx : x = slug
  · subst hx
    rw [AList.lookup_insert] at h
    exact .inl (Option.some.inj h).symm
  · rw [AList.lookup_insert_ne hx] at h
    exact .inr h

theorem shrinks_dropSubApp (s : Surface ε υ) (slug : String) (routes : Dict RouteConfig) :
    Shrinks s { s.dropSubApp slug with routes } :=
  .of_kept rfl rfl rfl rfl
    (fun _ _ _ _ hentry => kept_of_cache (lookup_of_erase hentry))
    fun _ _ _ _ hentry => kept_of_building (lookup_of_erase hentry)

theorem shrinks_beginBuild (s : Surface ε υ) (slug : String) (config : RouteConfig) :
    Shrinks s { s with building := s.building.insert slug ⟨config.tools, ∅⟩ } := by
  refine .of_kept rfl rfl rfl rfl (fun _ _ _ _ hentry => kept_of_cache hentry) ?_
  intro slug' build x made hentry hmade
  rcases lookup_of_insert hentry with rfl | hentry
  · cases hmade
  · exact kept_of_building hentry hmade

theorem shrinks_takeTool {slug : String} {build : SubAppBuild υ}
    (hbuild : s.building.lookup slug = some build) (h : s.takeTool slug build = some s') :
    Shrinks s s' := by
  unfold takeTool at h
  split at h
  · cases h
  · next name rest _ =>
    split at h
    · obtain rfl := Option.some.inj h
      exact .of_kept rfl rfl rfl rfl (fun _ _ _ _ hentry => kept_of_cache hentry)
        fun _ _ _ _ hentry => kept_of_building (lookup_of_erase hentry)
    · next tool hlive =>
      obtain rfl := Option.some.inj h
      refine .of_kept rfl rfl rfl rfl (fun _ _ _ _ hentry => kept_of_cache hentry) ?_
      intro slug' build' x made hentry hmade
      rcases lookup_of_insert hentry with rfl | hentry
      · by_cases hx : x = name
        · subst hx
          obtain rfl := Option.some.inj ((AList.lookup_insert _).symm.trans hmade)
          exact mem_kept.mpr (.inl hlive)
        · exact kept_of_building hbuild ((AList.lookup_insert_ne hx).symm.trans hmade)
      · exact kept_of_building hentry hmade

theorem shrinks_finishBuild {slug : String} {config : RouteConfig} {build : SubAppBuild υ}
    (hbuild : s.building.lookup slug = some build)
    (h : s.finishBuild slug config build = some s') : Shrinks s s' := by
  obtain ⟨-, h⟩ := Option.ite_none_right_eq_some.mp h
  obtain rfl := Option.some.inj h
  refine .of_kept rfl rfl rfl rfl ?_
    fun _ _ _ _ hentry => kept_of_building (lookup_of_erase hentry)
  intro slug' tools x made hentry hmade
  rcases lookup_of_insert hentry with hbuilt | hentry
  · obtain ⟨-, htools⟩ := Option.ite_none_left_eq_some.mp hbuilt.symm
    obtain rfl := Option.some.inj htools
    exact kept_of_building hbuild hmade
  · exact kept_of_cache hentry hmade

theorem Faithful.setReloading (h : s.Faithful) (reloading : Dict (Reloading ε υ)) :
    ({ s with reloading } : Surface ε υ).Faithful :=
  ⟨h.unlinked, fun made hmade body hbody =>
    (h.fits made hmade body hbody).imp fun _ hfits => ⟨hfits.1, hfits.2, hfits.3, hfits.4⟩⟩

section

variable [DecidableEq ε]

theorem Faithful.reloadBody {captured : Option (PresetBody ε υ)} {body : PresetBody ε υ}
    (h : s.Faithful) (hspares : s.RegisterSpares plugins name body) :
    (s.reloadBody plugins name captured body).Faithful := by
  have hregister := h.register hspares
  unfold Surface.reloadBody
  generalize s.register plugins name body = result at hregister ⊢
  obtain ⟨s', ok⟩ := result
  split
  · next heq =>
    obtain ⟨rfl, -⟩ := Prod.mk.inj heq
    exact hregister.setReloading _
  · next heq _ =>
    obtain ⟨rfl, -⟩ := Prod.mk.inj heq
    exact hregister.setReloading _

theorem Faithful.step {a : SurfaceStep ε υ} (h : s.Faithful) (hspares : s.Spares plugins a)
    (hstep : s.step plugins a = some s') : s'.Faithful := by
  cases a with
  | bind name =>
    obtain rfl := Option.some.inj hstep
    exact h.bindToolFunc hspares nofun
  | project op =>
    obtain ⟨hop, hstep⟩ := Option.ite_none_right_eq_some.mp hstep
    obtain rfl := Option.some.inj hstep
    exact h.bindToolFunc hspares fun _ _ => ⟨rfl, hop⟩
  | register name body =>
    obtain ⟨-, hstep⟩ := Option.ite_none_left_eq_some.mp hstep
    obtain rfl := Option.some.inj hstep
    exact h.register hspares
  | reload name =>
    obtain ⟨-, hstep⟩ := Option.ite_none_left_eq_some.mp hstep
    obtain rfl := Option.some.inj hstep
    exact (h.shrinks (shrinks_removeRegistration s name)).setReloading _
  | reloadRead name body =>
    dsimp only [Surface.step] at hstep
    split at hstep
    · obtain rfl := Option.some.inj hstep
      exact h.setReloading _
    · obtain rfl := Option.some.inj hstep
      exact h.reloadBody (hspares _ rfl)
    · cases hstep
  | reloadRestore name =>
    dsimp only [Surface.step, Surface.Spares] at hstep hspares
    split at hstep
    · next captured hcaptured =>
      rw [hcaptured] at hspares
      obtain rfl := Option.some.inj hstep
      exact h.reloadBody hspares
    · cases hstep
  | remove name =>
    obtain ⟨-, hstep⟩ := Option.ite_none_left_eq_some.mp hstep
    obtain rfl := Option.some.inj hstep
    exact h.shrinks (shrinks_removeRegistration s name)
  | registerSubMcpApp slug config =>
    obtain rfl := Option.some.inj hstep
    exact h.shrinks (shrinks_dropSubApp s slug _)
  | unregisterSubMcpApp slug =>
    obtain rfl := Option.some.inj hstep
    exact h.shrinks (shrinks_dropSubApp s slug _)
  | beginBuild slug =>
    obtain ⟨-, hstep⟩ := Option.ite_none_left_eq_some.mp hstep
    obtain ⟨config, -, rfl⟩ := Option.map_eq_some_iff.mp hstep
    exact h.shrinks (shrinks_beginBuild s slug config)
  | takeTool slug =>
    obtain ⟨build, hbuild, hstep⟩ := Option.bind_eq_some_iff.mp hstep
    exact h.shrinks (shrinks_takeTool hbuild hstep)
  | finishBuild slug =>
    dsimp only [Surface.step] at hstep
    split at hstep
    · next config build _ hbuild => exact h.shrinks (shrinks_finishBuild hbuild hstep)
    · cases hstep

theorem faithful_of_reachable
    (h : ((dispatchSurface plugins).when fun s a => s.Spares plugins a).Reachable s) :
    s.Faithful := by
  refine h.invariant ?_ ?_
  · rintro s ⟨operations, registry, hempty, rfl⟩
    refine ⟨fun op _ => linkOf_none rfl ?_, fun made hmade => absurd hmade List.not_mem_nil⟩
    show registry.extendTools.lookup op = none
    rw [hempty]
    rfl
  · intro s a s' hs hstep
    exact hs.step hstep.1 hstep.2

end

end Surface

end TaiSkeleton.Tools
