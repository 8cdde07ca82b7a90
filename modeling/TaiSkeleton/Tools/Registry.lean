import Mathlib.Data.List.AList
import Mathlib.Data.List.Dedup

/-!
# The tool registry

The base tools that are selected with their extension combos, and the base that each bound tool was
produced from.
-/

namespace TaiSkeleton.Tools

/-- A Python `dict` with names for its keys. -/
abbrev Dict (β : Type) := AList fun _ : String => β

/-- A tool object, by the body it runs: a registered operation, another function, or the tool that
was bound under another name, which an extension wraps or a preset bakes over. -/
inductive Tool where
  | operation (name : String)
  | capability
  | over (base : String) (tool : Tool)
deriving DecidableEq

/-- The operation that a tool's body is. -/
def Tool.operation? : Tool → Option String
  | .operation name => some name
  | .capability => none
  | .over _ tool => tool.operation?

/-- `ToolRegistry`; the elements of a combo are drawn from `ε`. -/
structure ToolRegistry (ε : Type) where
  requestedTools : List String := []
  tools : Dict (List (List ε)) := ∅
  extendTools : Dict String := ∅

namespace ToolRegistry

variable {ε : Type}

/-- `self._tools[name].extend(combos)` -/
def extend (tools : Dict (List (List ε))) (name : String) (combos : List (List ε)) :
    Dict (List (List ε)) :=
  tools.insert name ((tools.lookup name).getD [] ++ combos)

/-- `ToolRegistry.__init__` -/
def init (requestedTools : List String) (toolExtensions : List (String × List (List ε))) :
    ToolRegistry ε where
  requestedTools := requestedTools
  tools :=
    toolExtensions.foldl (fun tools entry => extend tools entry.1 entry.2)
      (requestedTools.foldl (fun tools name => extend tools name [[]]) ∅)

/-- `register_extend_tool` -/
def registerExtendTool (registry : ToolRegistry ε) (toolName extendToolName : String) :
    ToolRegistry ε :=
  { registry with extendTools := registry.extendTools.insert extendToolName toolName }

/-- `register_tool`; `none` where it raises. -/
def registerTool [DecidableEq ε] (registry : ToolRegistry ε) (name : String)
    (combos : List (List ε)) : Option (ToolRegistry ε) :=
  if name ∈ registry.requestedTools then
    if (registry.tools.lookup name).getD [] = [] :: combos then some registry else none
  else
    some { registry with
      requestedTools := name :: registry.requestedTools
      tools := registry.tools.insert name ([] :: combos) }

/-- `unregister_tool` -/
def unregisterTool (registry : ToolRegistry ε) (name : String) : ToolRegistry ε :=
  if name ∈ registry.requestedTools then
    { registry with
      requestedTools := registry.requestedTools.filter (· ≠ name)
      tools := registry.tools.erase name }
  else registry

/-- The branches that were produced from a tool. -/
def branches (registry : ToolRegistry ε) (toolName : String) : List String :=
  (registry.extendTools.entries.filter fun entry =>
    entry.2 = toolName ∧ entry.1 ≠ toolName).map Sigma.fst

/-- `unregister_tool_base`, beside the `branches` it returns. -/
def unregisterToolBase (registry : ToolRegistry ε) (toolName : String) : ToolRegistry ε where
  requestedTools := registry.requestedTools.filter (· ≠ toolName)
  tools := registry.tools.erase toolName
  extendTools :=
    ((registry.branches toolName).foldl (fun tools name => tools.erase name)
      registry.extendTools).erase toolName

/-- `base_of` -/
def baseOf (registry : ToolRegistry ε) (name : String) : String :=
  (registry.extendTools.lookup name).getD name

/-- `missing_tools` -/
def missingTools (registry : ToolRegistry ε) : List String :=
  registry.tools.keys.filter fun name =>
    name ∉ registry.extendTools.entries.map Sigma.snd

/-! ## What each operation leaves of the bases -/

/-- A fold of erasures drops the names erased and no others. -/
theorem lookup_foldl_erase {β : Type} (names : List String) (d : Dict β) (x : String) :
    (names.foldl (fun d name => d.erase name) d).lookup x =
      if x ∈ names then none else d.lookup x := by
  induction names generalizing d with
  | nil => simp
  | cons name names ih =>
    rw [List.foldl_cons, ih]
    by_cases hx : x = name
    · subst hx
      simp
    · simp [hx, AList.lookup_erase_ne hx]

theorem mem_branches {registry : ToolRegistry ε} {toolName x : String} :
    x ∈ registry.branches toolName ↔
      registry.extendTools.lookup x = some toolName ∧ x ≠ toolName := by
  unfold branches
  rw [List.mem_map]
  constructor
  · rintro ⟨⟨key, base⟩, hmem, rfl⟩
    rw [List.mem_filter] at hmem
    obtain ⟨hmem, hbase⟩ := hmem
    obtain ⟨rfl, hne⟩ := of_decide_eq_true hbase
    exact ⟨AList.mem_lookup_iff.mpr hmem, hne⟩
  · rintro ⟨hlookup, hne⟩
    refine ⟨⟨x, toolName⟩, List.mem_filter.mpr ⟨AList.mem_lookup_iff.mp hlookup, ?_⟩, rfl⟩
    exact decide_eq_true ⟨rfl, hne⟩

@[simp] theorem extendTools_unregisterTool (registry : ToolRegistry ε) (name : String) :
    (registry.unregisterTool name).extendTools = registry.extendTools := by
  unfold unregisterTool
  split_ifs <;> rfl

/-- A name that was unregistered first is seeded with its combos. -/
theorem registerTool_unregisterTool [DecidableEq ε] (registry : ToolRegistry ε) (name : String)
    (combos : List (List ε)) :
    ∃ registry', (registry.unregisterTool name).registerTool name combos = some registry' ∧
      registry'.extendTools = registry.extendTools ∧
      registry'.tools.lookup name = some ([] :: combos) := by
  have hname : name ∉ (registry.unregisterTool name).requestedTools := by
    unfold unregisterTool
    split_ifs with hmem
    · simp
    · exact hmem
  refine ⟨_, if_neg hname, extendTools_unregisterTool registry name, ?_⟩
  exact AList.lookup_insert _

/-- The names that lose their base are the tool and its branches. -/
theorem lookup_unregisterToolBase (registry : ToolRegistry ε) (toolName x : String) :
    (registry.unregisterToolBase toolName).extendTools.lookup x =
      if x = toolName ∨ x ∈ registry.branches toolName then none
      else registry.extendTools.lookup x := by
  unfold unregisterToolBase
  by_cases hx : x = toolName
  · subst hx
    simp
  · simp only [AList.lookup_erase_ne hx, lookup_foldl_erase, hx, false_or]

end ToolRegistry

end TaiSkeleton.Tools
