import TaiSkeleton.Lib.Leads
import TaiSkeleton.Tools.Binding

/-!
# Resolving a dispatch

A dispatched tool name is chased through the preset map and the extension branches to the operation
it runs. A tool whose names are linked as it was made resolves to the operation that its body is,
once the operation surface is settled.
-/

namespace TaiSkeleton.Tools

open Lib

/-- `OperationSurfaceUnsettledError`, by the assertion that raises it: the registry's silence about
the base is no answer, or its record of the base is not usable. -/
inductive OperationSurfaceUnsettledError where
  | capabilityUndecidable (name base : String)
  | recordUnusable (name base : String)
deriving DecidableEq

/-- `ResolvedDispatch` -/
structure ResolvedDispatch (υ μ : Type) where
  operation : μ
  callArguments : Kwargs υ
deriving DecidableEq

namespace TaiMCP

variable {ε υ μ : Type}

/-- `OperationRegistry.settled` -/
def settled (app : TaiMCP ε υ μ) : Bool :=
  app.rebuildDepth == 0 && !app.operations.keys.isEmpty

/-- The loop of `resolve_dispatch`. -/
def chase (app : TaiMCP ε υ μ) : ℕ → List String → String → Kwargs υ → String × Kwargs υ
  | 0, _, current, arguments => (current, arguments)
  | fuel + 1, seen, current, arguments =>
    if current ∈ seen then (current, arguments)
    else
      match app.specs.lookup current with
      | some spec =>
        app.chase fuel (current :: seen) spec.baseTool (spec.fixedKwargs ∪ arguments)
      | none =>
        let base := app.toolRegistry.baseOf current
        if base ≠ current then app.chase fuel (current :: seen) base arguments
        else (current, arguments)

/-- The names that the resolver can leave by a link. -/
def linkedNames (app : TaiMCP ε υ μ) : List String :=
  app.specs.keys ++ app.toolRegistry.extendTools.keys

/-- `resolve_dispatch` -/
def resolveDispatch (app : TaiMCP ε υ μ) (name : String) (callArguments : Kwargs υ) :
    Except OperationSurfaceUnsettledError (Option (ResolvedDispatch υ μ)) :=
  let (current, arguments) := app.chase app.linkedNames.length [] name callArguments
  match app.operations.lookup current with
  | some operation =>
    if app.settled then .ok (some ⟨operation, arguments⟩)
    else .error (.recordUnusable name current)
  | none =>
    if app.settled then .ok none else .error (.capabilityUndecidable name current)

/-! ## Links -/

/-- The name that the resolver moves on to. -/
def next (app : TaiMCP ε υ μ) (name : String) : Option String :=
  match app.specs.lookup name with
  | some spec => some spec.baseTool
  | none =>
    let base := app.toolRegistry.baseOf name
    if base ≠ name then some base else none

theorem next_eq_none {app : TaiMCP ε υ μ} {name : String} :
    app.next name = none ↔ name ∉ app.specs ∧ app.toolRegistry.baseOf name = name := by
  unfold next
  rw [← AList.lookup_eq_none]
  cases app.specs.lookup name <;> simp

theorem next_eq_some {app : TaiMCP ε υ μ} {name base : String} (h : app.next name = some base) :
    (∃ spec, app.specs.lookup name = some spec ∧ spec.baseTool = base) ∨
      app.specs.lookup name = none ∧ app.toolRegistry.baseOf name = base ∧ base ≠ name := by
  unfold next at h
  cases hspec : app.specs.lookup name with
  | some spec =>
    rw [hspec] at h
    exact .inl ⟨spec, rfl, Option.some.inj h⟩
  | none =>
    rw [hspec] at h
    obtain ⟨hne, hbase⟩ := Option.ite_none_right_eq_some.mp h
    obtain rfl := Option.some.inj hbase
    exact .inr ⟨rfl, rfl, hne⟩

theorem next_of_spec {app : TaiMCP ε υ μ} {name : String} {spec : PresetBody ε υ}
    (h : app.specs.lookup name = some spec) : app.next name = some spec.baseTool := by
  unfold next
  rw [h]

theorem next_of_branch {app : TaiMCP ε υ μ} {name base : String} (hspec : name ∉ app.specs)
    (hbase : app.toolRegistry.extendTools.lookup name = some base) (hne : base ≠ name) :
    app.next name = some base := by
  unfold next ToolRegistry.baseOf
  rw [AList.lookup_eq_none.mpr hspec, hbase]
  exact if_pos hne

/-- A name's link is read from its own entries of the two maps. -/
theorem next_congr {app app' : TaiMCP ε υ μ} {name : String}
    (hspec : app'.specs.lookup name = app.specs.lookup name)
    (hbase : app'.toolRegistry.extendTools.lookup name = app.toolRegistry.extendTools.lookup name) :
    app'.next name = app.next name := by
  unfold next ToolRegistry.baseOf
  rw [hspec, hbase]

theorem mem_linkedNames {app : TaiMCP ε υ μ} {name : String} (h : app.next name ≠ none) :
    name ∈ app.linkedNames := by
  unfold linkedNames
  rw [List.mem_append]
  by_contra hnot
  push Not at hnot
  obtain ⟨hspec, hbase⟩ := hnot
  refine h (next_eq_none.mpr ⟨hspec, ?_⟩)
  unfold ToolRegistry.baseOf
  rw [AList.lookup_eq_none.mpr hbase]
  rfl

/-! ## The loop -/

/-- What the preset of a name bakes over the arguments of the call. -/
def bake (app : TaiMCP ε υ μ) (arguments : Kwargs υ) (name : String) : Kwargs υ :=
  match app.specs.lookup name with
  | some spec => spec.fixedKwargs ∪ arguments
  | none => arguments

section

variable {app : TaiMCP ε υ μ} {fuel : ℕ} {seen : List String} {name base : String}
  {arguments : Kwargs υ}

theorem chase_seen (h : name ∈ seen) :
    app.chase fuel seen name arguments = (name, arguments) := by
  cases fuel with
  | zero => rfl
  | succ fuel => exact if_pos h

theorem chase_stop (h : app.next name = none) :
    app.chase fuel seen name arguments = (name, arguments) := by
  obtain ⟨hspec, hbase⟩ := next_eq_none.mp h
  cases fuel with
  | zero => rfl
  | succ fuel =>
    unfold chase
    rw [AList.lookup_eq_none.mpr hspec]
    simp [hbase]

theorem chase_link (hseen : name ∉ seen) (h : app.next name = some base) :
    app.chase (fuel + 1) seen name arguments =
      app.chase fuel (name :: seen) base (app.bake arguments name) := by
  rw [chase, if_neg hseen]
  unfold bake
  rcases next_eq_some h with ⟨spec, hspec, rfl⟩ | ⟨hspec, rfl, hne⟩
  · rw [hspec]
  · rw [hspec]
    exact if_pos hne

theorem bake_stop (h : app.next name = none) : app.bake arguments name = arguments := by
  obtain ⟨hspec, -⟩ := next_eq_none.mp h
  unfold bake
  rw [AList.lookup_eq_none.mpr hspec]

/-- A chain that ends is chased to its end, and what its names bake is folded over the
arguments. -/
theorem chase_eq_of_leads {path : List String} (h : Leads app.next name path base)
    (hfuel : path.length ≤ fuel + 1) (hseen : ∀ x ∈ path, x ∉ seen) :
    app.chase fuel seen name arguments = (base, path.foldl app.bake arguments) := by
  induction h generalizing fuel seen arguments with
  | ends hnext => rw [chase_stop hnext, List.foldl_cons, bake_stop hnext, List.foldl_nil]
  | @link name base _ path hnext hrest ih =>
    obtain ⟨hname, -⟩ := List.nodup_cons.mp (Leads.link hnext hrest).nodup
    have hpos := List.length_pos_of_mem hrest.head_mem
    rw [List.length_cons] at hfuel
    obtain ⟨fuel, rfl⟩ := Nat.exists_eq_add_one.mpr (show 0 < fuel by omega)
    rw [chase_link (hseen name List.mem_cons_self) hnext, List.foldl_cons]
    refine ih (by omega) fun x hx hmem => ?_
    rcases List.mem_cons.mp hmem with rfl | hmem
    · exact hname hx
    · exact hseen x (List.mem_cons_of_mem _ hx) hmem

theorem chase_of_leads {path : List String} (h : Leads app.next name path base)
    (hfuel : path.length ≤ fuel + 1) (hseen : ∀ x ∈ path, x ∉ seen) :
    (app.chase fuel seen name arguments).1 = base :=
  congrArg Prod.fst (chase_eq_of_leads h hfuel hseen)

/-- The loop ends on its own: fuel beyond the names that have a link changes nothing. -/
theorem chase_succ (hnodup : seen.Nodup) (hsub : seen ⊆ app.linkedNames)
    (hfuel : app.linkedNames.length ≤ fuel + seen.length) :
    app.chase (fuel + 1) seen name arguments = app.chase fuel seen name arguments := by
  induction fuel generalizing seen name arguments with
  | zero =>
    by_cases hseen : name ∈ seen
    · rw [chase_seen hseen, chase_seen hseen]
    · have hnext : app.next name = none := by
        by_contra hnext
        have hlen := (List.Nodup.subperm (List.nodup_cons.mpr ⟨hseen, hnodup⟩)
          (List.cons_subset.mpr ⟨mem_linkedNames hnext, hsub⟩)).length_le
        rw [List.length_cons] at hlen
        omega
      rw [chase_stop hnext, chase_stop hnext]
  | succ fuel ih =>
    by_cases hseen : name ∈ seen
    · rw [chase_seen hseen, chase_seen hseen]
    · cases hnext : app.next name with
      | none => rw [chase_stop hnext, chase_stop hnext]
      | some base =>
        have hmem : name ∈ app.linkedNames := mem_linkedNames (by simp [hnext])
        rw [chase_link hseen hnext, chase_link hseen hnext]
        refine ih (List.nodup_cons.mpr ⟨hseen, hnodup⟩) (List.cons_subset.mpr ⟨hmem, hsub⟩) ?_
        rw [List.length_cons]
        omega

/-- The loop of `resolve_dispatch` ends on any links, circular ones too. -/
theorem chase_ends (app : TaiMCP ε υ μ) (name : String) (arguments : Kwargs υ) (rounds : ℕ) :
    app.chase (app.linkedNames.length + rounds) [] name arguments =
      app.chase app.linkedNames.length [] name arguments := by
  induction rounds with
  | zero => rfl
  | succ rounds ih =>
    rw [← ih]
    exact chase_succ List.nodup_nil (List.nil_subset _) (Nat.le_add_right ..)

end

/-! ## The verdict -/

/-- No name is passed through on an unsettled surface. -/
theorem resolveDispatch_of_unsettled {app : TaiMCP ε υ μ} (h : app.settled = false)
    (name : String) (callArguments : Kwargs υ) :
    ∃ error, app.resolveDispatch name callArguments = .error error := by
  unfold resolveDispatch
  rw [h]
  generalize app.chase app.linkedNames.length [] name callArguments = chased
  simp only
  cases app.operations.lookup chased.1 with
  | none => exact ⟨.capabilityUndecidable name chased.1, rfl⟩
  | some _ => exact ⟨.recordUnusable name chased.1, rfl⟩

/-- A name whose chain ends at a registered operation is never passed through. -/
theorem resolveDispatch_of_leads {app : TaiMCP ε υ μ} {name op : String} {path : List String}
    {metadata : μ} (h : Leads app.next name path op)
    (hop : app.operations.lookup op = some metadata) (callArguments : Kwargs υ) :
    (∃ arguments, app.resolveDispatch name callArguments = .ok (some ⟨metadata, arguments⟩)) ∨
      ∃ error, app.resolveDispatch name callArguments = .error error := by
  have hchase : (app.chase app.linkedNames.length [] name callArguments).1 = op :=
    chase_of_leads h (h.length_le fun _ => mem_linkedNames) fun x _ => List.not_mem_nil
  cases hsettled : app.settled with
  | false => exact .inr (resolveDispatch_of_unsettled hsettled name callArguments)
  | true =>
    left
    unfold resolveDispatch
    generalize app.chase app.linkedNames.length [] name callArguments = chased at hchase ⊢
    obtain ⟨current, arguments⟩ := chased
    obtain rfl : current = op := hchase
    refine ⟨arguments, ?_⟩
    simp only [hop, hsettled, if_true]

end TaiMCP

/-- The names through which a bound tool was made, from its own down to its operation. -/
def Tool.names (name : String) : Tool → List String
  | .operation op => [op]
  | .capability => [name]
  | .over base tool => name :: tool.names base

end TaiSkeleton.Tools
