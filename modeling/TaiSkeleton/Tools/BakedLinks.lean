import TaiSkeleton.Authz.Containment
import TaiSkeleton.Tools.BakedTools

/-!
# Links and tool objects

A name's link is its base with the constants that the maps hold for it. A tool object has links of
its own, from when it was made. Where the maps agree with the object on the parameters of a path,
the decision that walks the maps reads what the object passes on.
-/

namespace TaiSkeleton.Authz

open Lib App AccessControl

/-! ## The parameters of a path -/

/-- The parameters that `_PATH_PARAM` finds in a template; `skip` of its next characters belong to
the one before. -/
def templateParams : Path → ℕ → List String
  | [], _ => []
  | _ :: text, skip + 1 => templateParams text skip
  | c :: text, 0 =>
    match if c = '{' then pathParam text else none with
    | some (param, _, length) => String.ofList param :: templateParams text length
    | none => templateParams text 0

/-- The path parameters of an operation. -/
def OperationMetadata.pathParams (op : OperationMetadata) : List String :=
  match op.routeTemplate with
  | none => []
  | some template => templateParams template 0

theorem lookup_of_substitute {op : OperationMetadata} {args : CallArguments} {param value : Path}
    {converter : Option Path} (h : substitute op args param converter = .ok value) :
    args.lookup (String.ofList param) ≠ none := by
  intro hnone
  unfold substitute at h
  rw [hnone] at h
  cases h

/-- A template is filled from arguments that have all its parameters. -/
theorem lookup_of_substituteTemplate {op : OperationMetadata} {args : CallArguments}
    {text path : Path} {skip : ℕ} (h : substituteTemplate op args text skip = .ok path) :
    ∀ param ∈ templateParams text skip, args.lookup param ≠ none := by
  induction text, skip using templateParams.induct generalizing path with
  | case1 skip => exact fun param hparam => nomatch hparam
  | case2 c text skip ih =>
    rw [substituteTemplate] at h
    rw [templateParams]
    exact ih h
  | case3 c text param converter length hparam ih =>
    rw [substituteTemplate, hparam] at h
    rw [templateParams, hparam]
    obtain ⟨value, hvalue, h⟩ := bind_eq_ok.mp h
    obtain ⟨rest, hrest, -⟩ := bind_eq_ok.mp h
    intro name hname
    rcases List.mem_cons.mp hname with rfl | hname
    · exact lookup_of_substitute hvalue
    · exact ih hrest name hname
  | case4 c text hparam ih =>
    rw [substituteTemplate, hparam] at h
    rw [templateParams, hparam]
    obtain ⟨rest, hrest, -⟩ := bind_eq_ok.mp h
    exact ih hrest

theorem lookup_of_synthesizePath {op : OperationMetadata} {args : CallArguments} {path : Path}
    (h : synthesizePath op args = .ok path) :
    ∀ param ∈ op.pathParams, args.lookup param ≠ none := by
  unfold synthesizePath at h
  unfold OperationMetadata.pathParams
  cases htemplate : op.routeTemplate with
  | none => exact fun param hparam => nomatch hparam
  | some template =>
    rw [htemplate] at h
    exact lookup_of_substituteTemplate h

/-- A check that is made of a caller synthesizes the path. -/
theorem synthesizePath_of_check {op : OperationMetadata} {args : CallArguments}
    {s : Snapshot} {evaluable : String → Bool} {caller : CallerIdentity} {fire : Bool}
    (henable : s.settings.enable = true) (hinternal : caller.isInternal = false)
    (h : check op args s evaluable caller fire = .ok ()) :
    ∃ path, synthesizePath op args = .ok path := by
  unfold check at h
  rw [henable, hinternal] at h
  simp only [Bool.not_true, Bool.or_self, Bool.false_eq_true, if_false] at h
  cases huser : caller.userId with
  | none =>
    rw [huser] at h
    cases h
  | some userId =>
    rw [huser] at h
    obtain ⟨path, hpath, -⟩ := bind_eq_ok.mp h
    exact ⟨path, hpath⟩

end TaiSkeleton.Authz

namespace TaiSkeleton.Tools

open Lib

variable {ε υ : Type}

/-! ## Links -/

/-- A base, and the constants that are baked over it. -/
structure Link (υ : Type) where
  base : String
  baked : Kwargs υ

namespace Link

/-- Another link with the same base: what it bakes of the parameters, the first one bakes too. -/
def Agrees (params : List String) (link made : Link υ) : Prop :=
  link.base = made.base ∧
    ∀ param ∈ params, param ∈ link.baked → link.baked.lookup param = made.baked.lookup param

instance [DecidableEq υ] (params : List String) (link made : Link υ) :
    Decidable (link.Agrees params made) := inferInstanceAs (Decidable (_ ∧ _))

theorem Agrees.refl (params : List String) (link : Link υ) : link.Agrees params link :=
  ⟨rfl, fun _ _ _ => rfl⟩

end Link

namespace BakedTool

/-- The names under which a tool object and those it runs were made, each with its link. -/
def links (name : String) : BakedTool υ → List (String × Link υ)
  | .operation _ => []
  | .capability => []
  | .over base baked tool => (name, ⟨base, baked⟩) :: tool.links base

/-- The name under which the innermost tool object was made. -/
def root (name : String) : BakedTool υ → String
  | .operation _ => name
  | .capability => name
  | .over base _ tool => tool.root base

end BakedTool

namespace Surface

/-- The link that the maps hold for a name. -/
def linkOf (s : Surface ε υ) (name : String) : Option (Link υ) :=
  match s.specs.lookup name with
  | some spec => some ⟨spec.baseTool, spec.fixedKwargs⟩
  | none =>
    if s.toolRegistry.baseOf name ≠ name then some ⟨s.toolRegistry.baseOf name, ∅⟩ else none

variable {s s' : Surface ε υ} {name : String}

theorem next_app (s : Surface ε υ) (name : String) :
    s.app.next name = (s.linkOf name).map Link.base := by
  show (match s.specs.lookup name with
    | some spec => some spec.baseTool
    | none => if s.toolRegistry.baseOf name ≠ name then some (s.toolRegistry.baseOf name)
      else none) = _
  unfold linkOf
  cases s.specs.lookup name with
  | some spec => rfl
  | none =>
    show _ = Option.map _ (ite _ _ _)
    split_ifs <;> rfl

theorem bake_app {link : Link υ} (h : s.linkOf name = some link) (arguments : Kwargs υ) :
    s.app.bake arguments name = link.baked ∪ arguments := by
  show (match s.specs.lookup name with
    | some spec => spec.fixedKwargs ∪ arguments
    | none => arguments) = _
  unfold linkOf at h
  cases hspec : s.specs.lookup name with
  | some spec =>
    rw [hspec] at h
    obtain rfl := Option.some.inj h
    rfl
  | none =>
    rw [hspec] at h
    obtain ⟨-, hlink⟩ := Option.ite_none_right_eq_some.mp h
    obtain rfl := Option.some.inj hlink
    exact Finmap.empty_union.symm

theorem bake_app_none (h : s.linkOf name = none) (arguments : Kwargs υ) :
    s.app.bake arguments name = arguments := by
  show (match s.specs.lookup name with
    | some spec => spec.fixedKwargs ∪ arguments
    | none => arguments) = _
  unfold linkOf at h
  cases hspec : s.specs.lookup name with
  | some spec =>
    rw [hspec] at h
    cases h
  | none => rfl

/-- A name's link is read from its own entries of the two maps. -/
theorem linkOf_congr (hspec : s'.specs.lookup name = s.specs.lookup name)
    (hbase : s'.toolRegistry.extendTools.lookup name = s.toolRegistry.extendTools.lookup name) :
    s'.linkOf name = s.linkOf name := by
  unfold linkOf ToolRegistry.baseOf
  rw [hspec, hbase]

theorem linkOf_spec {spec : PresetBody ε υ} (h : s.specs.lookup name = some spec) :
    s.linkOf name = some ⟨spec.baseTool, spec.fixedKwargs⟩ := by
  unfold linkOf
  rw [h]

theorem linkOf_branch {base : String} (hspec : s.specs.lookup name = none)
    (hbase : s.toolRegistry.extendTools.lookup name = some base) :
    s.linkOf name = if base ≠ name then some ⟨base, ∅⟩ else none := by
  unfold linkOf ToolRegistry.baseOf
  rw [hspec, hbase]
  rfl

theorem linkOf_none (hspec : s.specs.lookup name = none)
    (hbase : s.toolRegistry.extendTools.lookup name = none) : s.linkOf name = none := by
  unfold linkOf ToolRegistry.baseOf
  rw [hspec, hbase]
  exact if_neg fun h => h rfl

/-! ## A tool object that the maps agree with -/

/-- Some arguments as they are in others, where they have the parameters at all. -/
def Within (params : List String) (decided sent : Kwargs υ) : Prop :=
  ∀ param ∈ params, param ∈ decided → decided.lookup param = sent.lookup param

/-- No link of the maps is other than the tool object was made with, and the names it was made
under are no operation's, but for that of its body. -/
structure Fits (s : Surface ε υ) (op : Authz.OperationMetadata) (name : String)
    (tool : BakedTool υ) : Prop where
  operation : s.operations.lookup (tool.root name) = some op
  body : tool.operation? = some (tool.root name)
  apart : ∀ made ∈ tool.links name, made.1 ∉ s.operations
  agrees : ∀ made ∈ tool.links name, ∀ link, s.linkOf made.1 = some link →
    link.Agrees op.pathParams made.2

/-- Constants that agree, over arguments that agree. -/
theorem Within.bake {params : List String} {link made : Link υ} {decided sent : Kwargs υ}
    (h : Within params decided sent) (hagrees : link.Agrees params made)
    (hrefused : ∀ key ∈ made.baked.keys, key ∉ sent) :
    Within params (link.baked ∪ decided) (made.baked ∪ sent) := by
  intro param hparam hmem
  by_cases hlink : param ∈ link.baked
  · have heq := hagrees.2 param hparam hlink
    have hmade : param ∈ made.baked := by
      rw [← Finmap.lookup_isSome] at hlink ⊢
      rwa [← heq]
    rw [Finmap.lookup_union_left hlink, Finmap.lookup_union_left hmade, heq]
  · have hdecided : param ∈ decided := (Finmap.mem_union.mp hmem).resolve_left hlink
    have heq := h param hparam hdecided
    have hsent : param ∈ sent := by
      rw [← Finmap.lookup_isSome] at hdecided ⊢
      rwa [← heq]
    have hmade : param ∉ made.baked := fun hmade =>
      hrefused param (Finmap.mem_keys.mpr hmade) hsent
    rw [Finmap.lookup_union_right hlink, Finmap.lookup_union_right hmade, heq]

/-- From the name of a tool object the links lead to its operation, or to a name that is none. -/
theorem Fits.leads {op : Authz.OperationMetadata} {tool : BakedTool υ}
    (h : s.Fits op name tool) (hroot : s.linkOf (tool.root name) = none) :
    ∃ path last, Leads s.app.next name path last ∧ (last ∈ s.operations → last = tool.root name ∧
      ∀ decided sent body arguments, Within op.pathParams decided sent →
        tool.call sent = some (body, arguments) →
        body = tool.root name ∧ Within op.pathParams (path.foldl s.app.bake decided) arguments) := by
  induction tool generalizing name with
  | operation opName =>
    have hends : s.app.next name = none := by
      rw [next_app, show s.linkOf name = none from hroot]
      rfl
    refine ⟨[name], name, .ends hends, fun _ => ⟨rfl, ?_⟩⟩
    intro decided sent body arguments hwithin hcall
    obtain ⟨rfl, rfl⟩ := Prod.mk.inj (Option.some.inj hcall)
    refine ⟨Option.some.inj h.body, ?_⟩
    show Within _ (s.app.bake decided name) _
    rwa [bake_app_none (show s.linkOf name = none from hroot)]
  | capability => exact absurd h.body nofun
  | «over» base baked tool ih =>
    have hrest : s.Fits op base tool :=
      ⟨h.operation, h.body, fun made hmade => h.apart made (List.mem_cons_of_mem _ hmade),
        fun made hmade => h.agrees made (List.mem_cons_of_mem _ hmade)⟩
    cases hlink : s.linkOf name with
    | none =>
      have hends : s.app.next name = none := by
        rw [next_app, hlink]
        rfl
      exact ⟨[name], name, .ends hends, fun hop =>
        absurd hop (h.apart _ List.mem_cons_self)⟩
    | some link =>
      have hagrees := h.agrees _ List.mem_cons_self link hlink
      have hnext : s.app.next name = some base := by
        rw [next_app, hlink]
        exact congrArg some hagrees.1
      obtain ⟨path, last, hleads, hlast⟩ := ih hrest hroot
      refine ⟨name :: path, last, .link hnext hleads, fun hop => ?_⟩
      obtain ⟨hroot', hcalls⟩ := hlast hop
      refine ⟨hroot', fun decided sent body arguments hwithin hcall => ?_⟩
      obtain ⟨hrefused, hcall⟩ := Option.ite_none_left_eq_some.mp hcall
      rw [List.foldl_cons, bake_app hlink]
      exact hcalls _ _ body arguments
        (hwithin.bake hagrees fun key hkey hsent => hrefused ⟨key, hkey, hsent⟩) hcall

end Surface

end TaiSkeleton.Tools
