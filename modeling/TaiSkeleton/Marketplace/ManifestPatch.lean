import Mathlib
import TaiSkeleton.Config.SecretSeal

/-!
# The manifest patch of a plugin

What a plugin provides is grouped by the manifest field that each item wires into. An install adds
one reference for each value of a field, and an uninstall removes them all: what is removed once is
clear of them, and a removal leaves what is clear as it is.
-/

namespace TaiSkeleton.Marketplace

open Lib Config

variable {κ ν : Type}

/-- A manifest document. -/
abbrev Manifest (ν : Type) := List (String × Json ν)

/-! ## What a plugin provides -/

/-- The patch shapes of `KIND_MANIFEST_BINDINGS`. -/
inductive PatchMode where
  | configRow
  | moduleList
  | packageList
  | scalarModule
  | envSelected
deriving DecidableEq

/-- The binding of an item kind. -/
structure ManifestBinding where
  mode : PatchMode
  field : Option String

/-- `PluginItem`, of a kind that is drawn from `κ`. -/
structure PluginItem (κ : Type) where
  kind : κ
  module : String
deriving DecidableEq

/-- What the installer reads of a `PluginSpec`. -/
structure PluginSpec (κ : Type) where
  package : String
  provides : List (PluginItem κ)
deriving DecidableEq

/-- `_FieldTargets`, with the field that they are grouped under. -/
structure FieldTargets where
  field : String
  mode : PatchMode
  values : List String
deriving DecidableEq

/-- A value is added to the targets of its field. -/
def addTarget (field : String) (mode : PatchMode) (value : String) :
    List FieldTargets → List FieldTargets
  | [] => [⟨field, mode, [value]⟩]
  | target :: grouped =>
    if target.field = field then
      { target with values :=
          if value ∈ target.values then target.values else target.values ++ [value] } :: grouped
    else target :: addTarget field mode value grouped

/-- `_grouped_targets`; `none` for a `ManifestBindingError`. -/
def groupedTargets (bindings : κ → Option ManifestBinding) (spec : PluginSpec κ) :
    Option (List FieldTargets) :=
  spec.provides.foldlM (fun grouped item => do
    let binding ← bindings item.kind
    if binding.mode = .envSelected then return grouped
    let field ← binding.field
    let value := if binding.mode = .packageList then spec.package else item.module
    return addTarget field binding.mode value grouped) []

/-! ## Fields -/

/-- `_existing_list` -/
def existingList (document : Manifest ν) (field : String) : List (Json ν) :=
  match document.lookup field with
  | some (.arr entries) => entries
  | _ => []

/-- `document[field] = value` -/
def setField (document : Manifest ν) (field : String) (value : Json ν) : Manifest ν :=
  match document with
  | [] => [(field, value)]
  | (key, old) :: document =>
    if key = field then (field, value) :: document else (key, old) :: setField document field value

/-- `entry.get(key) in values` -/
def hasMember (key : String) (values : List String) : Json ν → Bool
  | .obj members =>
    match members.lookup key with
    | some (.str s) => decide (s ∈ values)
    | _ => false
  | _ => false

/-- `value in values`, of strings. -/
def isOneOf (values : List String) : Json ν → Bool
  | .str s => decide (s ∈ values)
  | _ => false

/-- `STUDIO_SPA_ROUTER` -/
def studioSpaRouter : String := "tai42_skeleton.routers.plugins"

/-! ## Collisions -/

/-- Why an item cannot be applied. -/
inductive Collision (ν : Type) where
  | entryExists (field module : String)
  | alreadyContains (field value : String)
  | alreadySet (field : String) (current : Json ν) (module : String)
  | singleSlot (field : String) (modules : List String)

/-- Whether Python counts a value as true. -/
def isTruthy [PyNumber ν] : Json ν → Bool
  | .null => false
  | .bool b => b
  | .num n => !PyNumber.eq n (PyNumber.ofBool false)
  | .str s => s != ""
  | .arr elements => !elements.isEmpty
  | .obj members => !members.isEmpty

/-- The collisions of one field. -/
def FieldTargets.collisions [PyNumber ν] (target : FieldTargets) (document : Manifest ν) :
    List (Collision ν) :=
  match target.mode with
  | .configRow =>
    (target.values.filter fun module => (existingList document target.field).any fun entry =>
      hasMember "module" [module] entry || hasMember "title" [module] entry).map
        (.entryExists target.field)
  | .scalarModule =>
    let current := Json.member document target.field
    if isTruthy current then target.values.map (.alreadySet target.field current)
    else if 1 < target.values.length then [.singleSlot target.field target.values]
    else []
  | _ =>
    (target.values.filter fun value => (existingList document target.field).any
      (isOneOf [value])).map (.alreadyContains target.field)

/-- `collisions` -/
def collisions [PyNumber ν] (targets : List FieldTargets) (document : Manifest ν) :
    List (Collision ν) :=
  targets.flatMap fun target => target.collisions document

/-! ## Patches -/

/-- A value is added to a list; a router goes before the catch-all that matches every path. -/
def addValue (field : String) (entries : List (Json ν)) (value : String) : List (Json ν) :=
  if entries.any (isOneOf [value]) then entries
  else if field = "routers_modules" ∧ entries.any (isOneOf [studioSpaRouter]) then
    let before := entries.takeWhile fun entry => !isOneOf [studioSpaRouter] entry
    before ++ .str value :: entries.drop before.length
  else entries ++ [.str value]

/-- The patch of one field. -/
def FieldTargets.apply (target : FieldTargets) (document : Manifest ν) : Manifest ν :=
  match target.mode with
  | .configRow =>
    setField document target.field (.arr (existingList document target.field ++
      target.values.map fun module => .obj [("title", .str module), ("module", .str module)]))
  | .scalarModule =>
    target.values.foldl (fun document module => setField document target.field (.str module))
      document
  | _ =>
    setField document target.field
      (.arr (target.values.foldl (addValue target.field) (existingList document target.field)))

/-- `apply_provides`; `none` for a `ManifestCollisionError`. -/
def applyProvides [PyNumber ν] (targets : List FieldTargets) (document : Manifest ν) :
    Option (Manifest ν) :=
  if (collisions targets document).isEmpty then
    some (targets.foldl (fun document target => target.apply document) document)
  else none

/-- Whether an entry of the field is one of the plugin's. -/
def FieldTargets.refers (target : FieldTargets) (entry : Json ν) : Bool :=
  match target.mode with
  | .configRow => hasMember "module" target.values entry
  | _ => isOneOf target.values entry

/-- Whether the field has no reference of the plugin. -/
def FieldTargets.clear (target : FieldTargets) (document : Manifest ν) : Bool :=
  match target.mode with
  | .scalarModule => !isOneOf target.values (Json.member document target.field)
  | _ => (existingList document target.field).all fun entry => !target.refers entry

/-- The removal in one field. -/
def FieldTargets.remove (target : FieldTargets) (document : Manifest ν) : Manifest ν :=
  if target.clear document then document
  else
    match target.mode with
    | .scalarModule => setField document target.field .null
    | _ =>
      setField document target.field
        (.arr ((existingList document target.field).filter fun entry => !target.refers entry))

/-- `remove_provides` -/
def removeProvides (targets : List FieldTargets) (document : Manifest ν) : Manifest ν :=
  targets.foldl (fun document target => target.remove document) document

/-- The document has no reference of the plugin. -/
def Clear (targets : List FieldTargets) (document : Manifest ν) : Prop :=
  ∀ target ∈ targets, target.clear document = true

/-! ## What a removal leaves -/

variable {document : Manifest ν} {field : String} {target target' : FieldTargets}
  {targets : List FieldTargets}

theorem lookup_setField (document : Manifest ν) (field : String) (value : Json ν) (key : String) :
    (setField document field value).lookup key =
      if key = field then some value else document.lookup key := by
  induction document with
  | nil =>
    unfold setField
    by_cases hkey : key = field
    · simp [hkey]
    · simp [hkey, List.lookup, beq_eq_false_iff_ne.mpr hkey]
  | cons entry document ih =>
    obtain ⟨key', old⟩ := entry
    unfold setField
    by_cases hfield : key' = field
    · rw [if_pos hfield]
      subst hfield
      by_cases hkey : key = key'
      · simp [hkey]
      · simp [hkey, List.lookup, beq_eq_false_iff_ne.mpr hkey]
    · rw [if_neg hfield]
      by_cases hkey : key = key'
      · subst hkey
        simp [hfield]
      · simp only [List.lookup, beq_eq_false_iff_ne.mpr hkey]
        exact ih

theorem existingList_setField (document : Manifest ν) (field : String) (value : Json ν)
    (key : String) : existingList (setField document field value) key =
      if key = field then existingList [(field, value)] field else existingList document key := by
  unfold existingList
  rw [lookup_setField]
  by_cases hkey : key = field
  · simp [hkey]
  · simp [hkey]

theorem member_setField (document : Manifest ν) (field : String) (value : Json ν) (key : String) :
    Json.member (setField document field value) key =
      if key = field then value else Json.member document key := by
  unfold Json.member
  rw [lookup_setField]
  split_ifs <;> rfl

theorem existingList_arr (field : String) (entries : List (Json ν)) :
    existingList [(field, Json.arr entries)] field = entries := by
  simp [existingList]

theorem existingList_null (field : String) :
    existingList [(field, (Json.null : Json ν))] field = [] := by
  simp [existingList]

/-- A removal leaves of each field a part of its list. -/
theorem existingList_remove (document : Manifest ν) (target : FieldTargets) (field : String) :
    existingList (target.remove document) field ⊆ existingList document field := by
  unfold FieldTargets.remove
  split_ifs with hclear
  · exact fun _ h => h
  · split
    · rw [existingList_setField, existingList_null]
      split_ifs
      · exact List.nil_subset _
      · exact fun _ h => h
    · rw [existingList_setField, existingList_arr]
      split_ifs with hfield
      · rw [hfield]
        exact List.filter_subset_self _
      · exact fun _ h => h

/-- A removal leaves a field, or makes it something that is no name. -/
theorem member_remove (document : Manifest ν) (target : FieldTargets) (field : String)
    (values : List String) (h : isOneOf values (Json.member document field) = false) :
    isOneOf values (Json.member (target.remove document) field) = false := by
  unfold FieldTargets.remove
  split_ifs with hclear
  · exact h
  · split
    · rw [member_setField]
      split_ifs
      · rfl
      · exact h
    · rw [member_setField]
      split_ifs
      · rfl
      · exact h

theorem FieldTargets.clear_remove_of_clear (h : target.clear document = true) :
    target.clear (target'.remove document) = true := by
  unfold FieldTargets.clear at h ⊢
  split
  · next hmode =>
    rw [hmode] at h
    rw [Bool.not_eq_true'] at h ⊢
    exact member_remove document target' target.field target.values h
  · next hmode =>
    have hall : ((existingList document target.field).all fun entry => !target.refers entry) =
        true := by
      split at h
      · next hscalar => exact absurd hscalar hmode
      · exact h
    rw [List.all_eq_true] at hall ⊢
    exact fun entry hentry => hall entry (existingList_remove document target' _ hentry)

theorem FieldTargets.clear_remove (target : FieldTargets) (document : Manifest ν) :
    target.clear (target.remove document) = true := by
  unfold FieldTargets.remove
  split_ifs with hclear
  · exact hclear
  · unfold FieldTargets.clear
    split
    · simp only
      rw [member_setField, if_pos rfl]
      rfl
    · next hmode =>
      split
      · next hscalar => exact absurd hscalar hmode
      · rw [existingList_setField, if_pos rfl, existingList_arr, List.all_eq_true]
        intro entry hentry
        exact (List.mem_filter.mp hentry).2

theorem clear_removeProvides_of_clear (targets : List FieldTargets)
    (h : target.clear document = true) : target.clear (removeProvides targets document) = true := by
  induction targets generalizing document with
  | nil => exact h
  | cons target' targets ih => exact ih (FieldTargets.clear_remove_of_clear h)

/-- What is removed is clear of references. -/
theorem clear_removeProvides (targets : List FieldTargets) (document : Manifest ν) :
    Clear targets (removeProvides targets document) := by
  induction targets generalizing document with
  | nil => exact fun _ h => nomatch h
  | cons target targets ih =>
    intro target' htarget'
    rcases List.mem_cons.mp htarget' with rfl | htarget'
    · exact clear_removeProvides_of_clear targets (FieldTargets.clear_remove target' document)
    · exact ih _ target' htarget'

/-- A removal leaves a document that is clear of references as it is. -/
theorem removeProvides_of_clear (h : Clear targets document) :
    removeProvides targets document = document := by
  induction targets with
  | nil => rfl
  | cons target targets ih =>
    have hfirst : target.remove document = document := if_pos (h target List.mem_cons_self)
    show removeProvides targets (target.remove document) = document
    rw [hfirst]
    exact ih fun target' htarget' => h target' (List.mem_cons_of_mem _ htarget')

theorem removeProvides_removeProvides (targets : List FieldTargets) (document : Manifest ν) :
    removeProvides targets (removeProvides targets document) = removeProvides targets document :=
  removeProvides_of_clear (clear_removeProvides targets document)

end TaiSkeleton.Marketplace
