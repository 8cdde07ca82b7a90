import Mathlib.Data.List.Infix
import Mathlib.Data.List.Nodup
import Mathlib.Data.List.TakeWhile
import TaiSkeleton.Marketplace.ManifestPatch

/-!
# The manifest patch and its inverse

A patch and a removal read and write the fields that a plugin has targets for, each by itself: what
they make of a document is read off what they make of the value of one field. What an install adds
to a document without collisions an uninstall takes away again.
-/

namespace TaiSkeleton.Marketplace

open Lib Config

variable {κ ν : Type}

/-! ## The targets of a plugin -/

/-- The fields are apart, and so are the values of each. -/
structure Grouped (targets : List FieldTargets) : Prop where
  fields : (targets.map FieldTargets.field).Nodup
  values : ∀ target ∈ targets, target.values.Nodup
  modes : ∀ target ∈ targets, target.mode ≠ .envSelected

theorem fields_addTarget (field : String) (mode : PatchMode) (value : String)
    (grouped : List FieldTargets) : (addTarget field mode value grouped).map FieldTargets.field =
      if field ∈ grouped.map FieldTargets.field then grouped.map FieldTargets.field
      else grouped.map FieldTargets.field ++ [field] := by
  induction grouped with
  | nil => rfl
  | cons target grouped ih =>
    unfold addTarget
    by_cases hfield : target.field = field
    · simp [hfield]
    · have hne : field ≠ target.field := fun heq => hfield heq.symm
      rw [if_neg hfield, List.map_cons, ih, List.map_cons]
      simp only [List.mem_cons, or_iff_right hne]
      split_ifs <;> rfl

theorem mem_addTarget {field : String} {mode : PatchMode} {value : String}
    {grouped : List FieldTargets} {target : FieldTargets}
    (h : target ∈ addTarget field mode value grouped) : target ∈ grouped ∨
      target = ⟨field, mode, [value]⟩ ∨ ∃ old ∈ grouped, value ∉ old.values ∧
        target = { old with values := old.values ++ [value] } := by
  induction grouped with
  | nil => exact .inr (.inl (List.mem_singleton.mp h))
  | cons first grouped ih =>
    unfold addTarget at h
    split_ifs at h with hfield hvalue
    · exact .inl h
    · obtain rfl | hmem := List.mem_cons.mp h
      · exact .inr (.inr ⟨first, List.mem_cons_self, hvalue, rfl⟩)
      · exact .inl (List.mem_cons_of_mem _ hmem)
    · obtain rfl | hmem := List.mem_cons.mp h
      · exact .inl List.mem_cons_self
      · obtain hold | hnew | ⟨old, hold, hold'⟩ := ih hmem
        · exact .inl (List.mem_cons_of_mem _ hold)
        · exact .inr (.inl hnew)
        · exact .inr (.inr ⟨old, List.mem_cons_of_mem _ hold, hold'⟩)

theorem Grouped.addTarget {grouped : List FieldTargets} (h : Grouped grouped) (field : String)
    {mode : PatchMode} (hmode : mode ≠ .envSelected) (value : String) :
    Grouped (addTarget field mode value grouped) where
  fields := by
    rw [fields_addTarget]
    split_ifs with hmem
    · exact h.fields
    · exact List.nodup_append.mpr ⟨h.fields, List.nodup_singleton _, by
        rintro key hkey key' hkey' rfl
        exact hmem (List.mem_singleton.mp hkey' ▸ hkey)⟩
  values target hmem := by
    obtain hold | rfl | ⟨old, hold, hvalue, rfl⟩ := mem_addTarget hmem
    · exact h.values target hold
    · exact List.nodup_singleton _
    · refine List.nodup_append.mpr ⟨h.values old hold, List.nodup_singleton _, ?_⟩
      rintro v hv v' hv' rfl
      exact hvalue (List.mem_singleton.mp hv' ▸ hv)
  modes target hmem := by
    obtain hold | rfl | ⟨old, hold, -, rfl⟩ := mem_addTarget hmem
    · exact h.modes target hold
    · exact hmode
    · exact h.modes old hold

theorem grouped_groupedTargets {bindings : κ → Option ManifestBinding} {spec : PluginSpec κ}
    {targets : List FieldTargets} (h : groupedTargets bindings spec = some targets) :
    Grouped targets := by
  suffices ∀ (items : List (PluginItem κ)) (grouped : List FieldTargets), Grouped grouped →
      items.foldlM (fun grouped item => do
        let binding ← bindings item.kind
        if binding.mode = .envSelected then return grouped
        let field ← binding.field
        let value := if binding.mode = .packageList then spec.package else item.module
        return addTarget field binding.mode value grouped) grouped = some targets →
      Grouped targets from
    this spec.provides [] ⟨List.nodup_nil, nofun, nofun⟩ h
  intro items
  induction items with
  | nil =>
    intro grouped hgrouped h
    obtain rfl := Option.some.inj h
    exact hgrouped
  | cons item items ih =>
    intro grouped hgrouped h
    rw [List.foldlM_cons] at h
    obtain ⟨next, hnext, hrest⟩ := Option.bind_eq_some_iff.mp h
    refine ih next ?_ hrest
    obtain ⟨binding, -, hnext⟩ := Option.bind_eq_some_iff.mp hnext
    by_cases henv : binding.mode = .envSelected
    · rw [if_pos henv] at hnext
      obtain rfl := Option.some.inj hnext
      exact hgrouped
    · rw [if_neg henv] at hnext
      obtain ⟨field, -, hnext⟩ := Option.bind_eq_some_iff.mp hnext
      obtain rfl := Option.some.inj hnext
      exact hgrouped.addTarget field henv _

/-! ## One field by itself -/

/-- The list that a field holds. -/
def listOf : Option (Json ν) → List (Json ν)
  | some (.arr entries) => entries
  | _ => []

namespace FieldTargets

variable (target : FieldTargets)

/-- The value of the field after the patch. -/
def patched (old : Option (Json ν)) : Option (Json ν) :=
  match target.mode with
  | .configRow => some (.arr (listOf old ++
      target.values.map fun module => .obj [("title", .str module), ("module", .str module)]))
  | .scalarModule => target.values.foldl (fun _ module => some (.str module)) old
  | _ => some (.arr (target.values.foldl (addValue target.field) (listOf old)))

/-- The field has no reference of the plugin. -/
def clearAt (old : Option (Json ν)) : Bool :=
  match target.mode with
  | .scalarModule => !isOneOf target.values (old.getD .null)
  | _ => (listOf old).all fun entry => !target.refers entry

/-- The value of the field after the removal. -/
def cleared (old : Option (Json ν)) : Option (Json ν) :=
  if target.clearAt old then old
  else
    match target.mode with
    | .scalarModule => some .null
    | _ => some (.arr ((listOf old).filter fun entry => !target.refers entry))

variable {target} {document : Manifest ν} {key : String}

theorem lookup_apply : (target.apply document).lookup key =
    if key = target.field then target.patched (document.lookup key) else document.lookup key := by
  obtain ⟨field, mode, values⟩ := target
  cases mode with
  | scalarModule =>
    show (values.foldl (fun document module => setField document field (.str module))
      document).lookup key = if key = field then values.foldl (fun _ module => some (.str module))
        (document.lookup key) else document.lookup key
    induction values generalizing document with
    | nil => simp
    | cons module values ih =>
      rw [List.foldl_cons, ih, lookup_setField, List.foldl_cons]
      split_ifs <;> rfl
  | _ =>
    refine (lookup_setField document field _ key).trans ?_
    by_cases hkey : key = field
    · subst hkey
      rw [if_pos rfl, if_pos rfl]
      rfl
    · rw [if_neg hkey, if_neg hkey]

theorem lookup_remove : (target.remove document).lookup key =
    if key = target.field then target.cleared (document.lookup key) else document.lookup key := by
  have hclear : target.clear document = target.clearAt (document.lookup target.field) := rfl
  unfold remove cleared
  rw [hclear]
  obtain ⟨field, mode, values⟩ := target
  by_cases hkey : key = field
  · subst hkey
    rw [if_pos (rfl : key = key)]
    split_ifs
    · rfl
    · cases mode <;> exact (lookup_setField document key _ key).trans (if_pos rfl)
  · rw [if_neg hkey]
    split_ifs
    · rfl
    · cases mode <;> exact (lookup_setField document field _ key).trans (if_neg hkey)

end FieldTargets

/-- What changes each target's field by itself changes the fields by themselves. -/
theorem lookup_foldl {f : Manifest ν → FieldTargets → Manifest ν}
    {g : FieldTargets → Option (Json ν) → Option (Json ν)}
    (hlocal : ∀ document target key, (f document target).lookup key =
      if key = target.field then g target (document.lookup key) else document.lookup key)
    {targets : List FieldTargets} (hfields : (targets.map FieldTargets.field).Nodup)
    (document : Manifest ν) :
    (∀ target ∈ targets, (targets.foldl f document).lookup target.field =
      g target (document.lookup target.field)) ∧
    ∀ key ∉ targets.map FieldTargets.field,
      (targets.foldl f document).lookup key = document.lookup key := by
  induction targets generalizing document with
  | nil => exact ⟨nofun, fun _ _ => rfl⟩
  | cons first targets ih =>
    rw [List.map_cons, List.nodup_cons] at hfields
    obtain ⟨hin, hout⟩ := ih hfields.2 (f document first)
    refine ⟨fun target hmem => ?_, fun key hkey => ?_⟩
    · rw [List.foldl_cons]
      obtain rfl | hmem := List.mem_cons.mp hmem
      · rw [hout _ hfields.1, hlocal, if_pos rfl]
      · have hne : target.field ≠ first.field := by
          intro heq
          exact hfields.1 (heq ▸ List.mem_map_of_mem hmem)
        rw [hin target hmem, hlocal, if_neg hne]
    · rw [List.map_cons, List.mem_cons, not_or] at hkey
      rw [List.foldl_cons, hout key hkey.2, hlocal, if_neg hkey.1]

/-! ## A value is added to a list -/

section AddValue

variable {field value : String} {entries : List (Json ν)} {entry : Json ν}

theorem isOneOf_singleton : isOneOf [value] entry = true ↔ entry = .str value := by
  cases entry <;> simp [isOneOf]

/-- The value comes in somewhere, or is there already. -/
theorem addValue_spec (field : String) (entries : List (Json ν)) (value : String) :
    (.str value ∈ entries ∧ addValue field entries value = entries) ∨
      ∃ before after, entries = before ++ after ∧
        addValue field entries value = before ++ .str value :: after := by
  unfold addValue
  split_ifs with hthere hrouter
  · obtain ⟨entry, hmem, hentry⟩ := List.any_eq_true.mp hthere
    exact .inl ⟨isOneOf_singleton.mp hentry ▸ hmem, rfl⟩
  · exact .inr ⟨_, _, List.prefix_append_drop (List.takeWhile_prefix _), rfl⟩
  · exact .inr ⟨entries, [], (List.append_nil _).symm, rfl⟩

theorem mem_addValue : entry ∈ addValue field entries value ↔
    entry ∈ entries ∨ entry = .str value := by
  obtain ⟨hmem, heq⟩ | ⟨before, after, rfl, heq⟩ := addValue_spec field entries value
  · rw [heq]
    exact ⟨.inl, fun h => h.elim id fun h => h ▸ hmem⟩
  · rw [heq]
    simp only [List.mem_append, List.mem_cons]
    tauto

theorem sublist_addValue : entries.Sublist (addValue field entries value) := by
  obtain ⟨-, heq⟩ | ⟨before, after, rfl, heq⟩ := addValue_spec field entries value
  · rw [heq]
  · rw [heq]
    exact (List.sublist_cons_self _ _).append_left before

theorem filter_addValue {keep : Json ν → Bool} (hvalue : keep (.str value) = false) :
    (addValue field entries value).filter keep = entries.filter keep := by
  obtain ⟨-, heq⟩ | ⟨before, after, rfl, heq⟩ := addValue_spec field entries value
  · rw [heq]
  · rw [heq, List.filter_append, List.filter_append, List.filter_cons, hvalue]
    rfl

theorem foldl_addValue_spec (field : String) (values : List String) (entries : List (Json ν)) :
    entries.Sublist (values.foldl (addValue field) entries) ∧
      (∀ value ∈ values, .str value ∈ values.foldl (addValue field) entries) ∧
      ∀ keep : Json ν → Bool, (∀ value ∈ values, keep (.str value) = false) →
        (values.foldl (addValue field) entries).filter keep = entries.filter keep := by
  induction values generalizing entries with
  | nil => exact ⟨.refl _, nofun, fun _ _ => rfl⟩
  | cons value values ih =>
    obtain ⟨hsub, hmem, hkept⟩ := ih (addValue field entries value)
    refine ⟨sublist_addValue.trans hsub, fun value' hvalue' => ?_, fun keep hkeep => ?_⟩
    · obtain rfl | hvalue' := List.mem_cons.mp hvalue'
      · exact hsub.subset (mem_addValue.mpr (.inr rfl))
      · exact hmem value' hvalue'
    · rw [List.foldl_cons, hkept keep fun value' h => hkeep value' (List.mem_cons_of_mem _ h),
        filter_addValue (hkeep value List.mem_cons_self)]

/-! ### The catch-all -/

/-- The entries before the catch-all. -/
def beforeSpa (entries : List (Json ν)) : List (Json ν) :=
  entries.takeWhile fun entry => !isOneOf [studioSpaRouter] entry

theorem beforeSpa_append {before after : List (Json ν)}
    (h : ∀ entry ∈ before, isOneOf [studioSpaRouter] entry = false) :
    beforeSpa (before ++ after) = before ++ beforeSpa after := by
  unfold beforeSpa
  exact List.takeWhile_append_of_pos fun entry hentry => by simp [h entry hentry]

theorem isOneOf_of_mem_beforeSpa (h : entry ∈ beforeSpa entries) :
    isOneOf [studioSpaRouter] entry = false := by
  simpa using List.mem_takeWhile_imp h

theorem beforeSpa_addValue (hnew : entries.any (isOneOf [value]) = false) :
    ∃ rest, beforeSpa (addValue "routers_modules" entries value) =
      beforeSpa entries ++ beforeSpa (.str value :: rest) := by
  unfold addValue
  rw [if_neg (by simp [hnew])]
  split_ifs with hrouter
  · exact ⟨_, beforeSpa_append fun entry hentry => isOneOf_of_mem_beforeSpa hentry⟩
  · have hnone : ∀ entry ∈ entries, isOneOf [studioSpaRouter] entry = false := by
      simpa using hrouter
    refine ⟨[], ?_⟩
    have hall := (beforeSpa_append hnone : beforeSpa (_ ++ []) = _)
    rw [List.append_nil] at hall
    rw [beforeSpa_append hnone, hall]
    simp [beforeSpa]

/-- Every router that is added comes before the catch-all. -/
theorem mem_beforeSpa_foldl {values : List String} (hnodup : values.Nodup)
    (hnew : ∀ value ∈ values, entries.any (isOneOf [value]) = false) :
    beforeSpa entries ⊆ beforeSpa (values.foldl (addValue "routers_modules") entries) ∧
      ∀ value ∈ values, value ≠ studioSpaRouter →
        .str value ∈ beforeSpa (values.foldl (addValue "routers_modules") entries) := by
  induction values generalizing entries with
  | nil => exact ⟨List.Subset.refl _, nofun⟩
  | cons first values ih =>
    rw [List.nodup_cons] at hnodup
    obtain ⟨rest, hfirst⟩ := beforeSpa_addValue (hnew first List.mem_cons_self)
    have hstill : ∀ value ∈ values,
        (addValue "routers_modules" entries first).any (isOneOf [value]) = false := by
      intro value hvalue
      rw [List.any_eq_false]
      intro entry hentry hone
      obtain rfl := isOneOf_singleton.mp hone
      obtain hold | hsame := mem_addValue.mp hentry
      · have hnot := hnew value (List.mem_cons_of_mem _ hvalue)
        exact absurd hone (List.any_eq_false.mp hnot _ hold)
      · exact hnodup.1 (Json.str.inj hsame ▸ hvalue)
    obtain ⟨hsub, hmem⟩ := ih hnodup.2 hstill
    rw [List.foldl_cons]
    refine ⟨fun entry hentry => hsub ?_, fun value hvalue hne => ?_⟩
    · rw [hfirst]
      exact List.mem_append_left _ hentry
    · obtain rfl | hvalue := List.mem_cons.mp hvalue
      · refine hsub ?_
        rw [hfirst]
        exact List.mem_append_right _ (by simp [beforeSpa, isOneOf, hne])
      · exact hmem value hvalue hne

end AddValue

/-! ## The patch and the removal of one field -/

namespace FieldTargets

variable {target : FieldTargets} {old : Option (Json ν)}

/-- What the code counts as a field that is not set. -/
def Unset [PyNumber ν] (target : FieldTargets) (old : Option (Json ν)) : Prop :=
  match target.mode with
  | .scalarModule => isTruthy (old.getD .null) = false
  | _ => ∀ entries, old ≠ some (.arr entries)

/-- An entry that `collisions` finds the value in. -/
def Holds (target : FieldTargets) (value : String) (entry : Json ν) : Prop :=
  match target.mode with
  | .configRow => hasMember "module" [value] entry = true
  | _ => entry = .str value

theorem hasMember_of_mem {key : String} {values : List String} {entry : Json ν}
    (h : hasMember key values entry = true) :
    ∃ value ∈ values, hasMember key [value] entry = true := by
  cases entry with
  | obj members =>
    simp only [hasMember] at h ⊢
    cases hlookup : members.lookup key with
    | none => simp [hlookup] at h
    | some found =>
      cases found with
      | str text => exact ⟨text, by simpa [hlookup] using h, by simp⟩
      | _ => simp [hlookup] at h
  | _ => cases h

theorem eq_str_of_isOneOf {values : List String} {entry : Json ν}
    (h : isOneOf values entry = true) : ∃ value ∈ values, entry = .str value := by
  cases entry with
  | str text => exact ⟨text, of_decide_eq_true h, rfl⟩
  | _ => cases h

variable [PyNumber ν] {document : Manifest ν}

/-- Without collisions no entry is one of the plugin's. -/
theorem refers_eq_false (hno : target.collisions document = [])
    (hmode : target.mode ≠ .scalarModule) {entry : Json ν}
    (hentry : entry ∈ existingList document target.field) : target.refers entry = false := by
  rw [Bool.eq_false_iff]
  intro hrefers
  unfold collisions at hno
  unfold refers at hrefers
  split at hno
  · next hrow =>
    rw [hrow] at hrefers
    obtain ⟨value, hvalue, hmember⟩ := hasMember_of_mem hrefers
    have hnot := List.filter_eq_nil_iff.mp (List.map_eq_nil_iff.mp hno) value hvalue
    exact hnot (List.any_eq_true.mpr ⟨entry, hentry, by simp [hmember]⟩)
  · next hscalar => exact hmode hscalar
  · next hrow _ =>
    have hone : isOneOf target.values entry = true := by
      split at hrefers
      · next hrow' => exact absurd hrow' hrow
      · exact hrefers
    obtain ⟨value, hvalue, rfl⟩ := eq_str_of_isOneOf hone
    have hnot := List.filter_eq_nil_iff.mp (List.map_eq_nil_iff.mp hno) value hvalue
    exact hnot (List.any_eq_true.mpr ⟨_, hentry, isOneOf_singleton.mpr rfl⟩)

omit [PyNumber ν] in
theorem refers_row (hmode : target.mode = .configRow) {value : String}
    (hvalue : value ∈ target.values) :
    target.refers (.obj [("title", .str value), ("module", .str value)] : Json ν) = true := by
  unfold refers
  rw [hmode]
  simpa [hasMember, List.lookup] using hvalue

omit [PyNumber ν] in
theorem refers_str (hmode : target.mode ≠ .configRow) {value : String}
    (hvalue : value ∈ target.values) : target.refers (.str value : Json ν) = true := by
  unfold refers
  split
  · next hrow => exact absurd hrow hmode
  · exact decide_eq_true hvalue

omit [PyNumber ν] in
theorem holds_row (hmode : target.mode = .configRow) (value : String) :
    target.Holds value (.obj [("title", .str value), ("module", .str value)] : Json ν) := by
  unfold Holds
  rw [hmode]
  simp [hasMember, List.lookup]

omit [PyNumber ν] in
theorem holds_str (hmode : target.mode ≠ .configRow) (value : String) :
    target.Holds value (.str value : Json ν) := by
  unfold Holds
  split
  · next hrow => exact absurd hrow hmode
  · rfl

omit [PyNumber ν] in
/-- A patched list has the entries that it had, and an entry for each value. -/
theorem patched_list (hmode : target.mode ≠ .scalarModule) (old : Option (Json ν)) :
    ∃ entries, target.patched old = some (.arr entries) ∧ (listOf old).Sublist entries ∧
      (entries.filter fun entry => !target.refers entry) =
        ((listOf old).filter fun entry => !target.refers entry) ∧
      ∀ value ∈ target.values, ∃ entry ∈ entries, target.Holds value entry := by
  unfold patched
  split
  · next hrow =>
    refine ⟨_, rfl, List.sublist_append_left _ _, ?_, fun value hvalue =>
      ⟨_, List.mem_append_right _ (List.mem_map_of_mem hvalue), holds_row hrow value⟩⟩
    have hnone : ((target.values.map fun module => (.obj [("title", .str module),
        ("module", .str module)] : Json ν)).filter fun entry => !target.refers entry) = [] := by
      refine List.filter_eq_nil_iff.mpr fun entry hentry => ?_
      obtain ⟨value, hvalue, rfl⟩ := List.mem_map.mp hentry
      simp [refers_row hrow hvalue]
    rw [List.filter_append, hnone, List.append_nil]
  · next hscalar => exact absurd hscalar hmode
  · next hrow _ =>
    obtain ⟨hsub, hmem, hkept⟩ := foldl_addValue_spec target.field target.values (listOf old)
    refine ⟨_, rfl, hsub, hkept _ fun value hvalue => ?_, fun value hvalue =>
      ⟨_, hmem value hvalue, holds_str hrow value⟩⟩
    rw [refers_str hrow hvalue]
    rfl

omit [PyNumber ν] in
/-- A removal keeps the entries that are not the plugin's, in their order. -/
theorem cleared_list (hmode : target.mode ≠ .scalarModule) (old : Option (Json ν)) :
    listOf (target.cleared old) = ((listOf old).filter fun entry => !target.refers entry) ∧
      (target.cleared old = old ∨
        target.cleared old = some (.arr (listOf (target.cleared old)))) := by
  have hclear : target.clearAt old = (listOf old).all fun entry => !target.refers entry := by
    unfold clearAt
    split
    · next hscalar => exact absurd hscalar hmode
    · rfl
  unfold cleared
  rw [hclear]
  split_ifs with hall
  · exact ⟨(List.filter_eq_self.mpr (List.all_eq_true.mp hall)).symm, .inl rfl⟩
  · split
    · next hscalar => exact absurd hscalar hmode
    · exact ⟨rfl, .inr rfl⟩

/-- What is patched and cleared again is the list of before, or an empty one where there was
none. -/
theorem cleared_patched_list (hno : target.collisions document = [])
    (hmode : target.mode ≠ .scalarModule) :
    target.cleared (target.patched (document.lookup target.field)) =
      some (.arr (existingList document target.field)) := by
  obtain ⟨entries, hpatched, -, hkept, -⟩ := patched_list hmode (document.lookup target.field)
  obtain ⟨hlist, hshape⟩ := cleared_list hmode (some (.arr entries))
  have hold : ((listOf (document.lookup target.field)).filter fun entry =>
      !target.refers entry) = existingList document target.field := by
    refine List.filter_eq_self.mpr fun entry hentry => ?_
    rw [refers_eq_false hno hmode hentry]
    rfl
  rw [hpatched]
  obtain hsame | hshape := hshape
  · rw [hsame] at hlist ⊢
    exact congrArg (fun entries => some (Json.arr entries)) ((hlist.trans hkept).trans hold)
  · rw [hshape, hlist]
    exact congrArg (fun entries => some (Json.arr entries)) (hkept.trans hold)

/-! ### A slot -/

/-- Without collisions a slot is not set, and the plugin has one module for it. -/
theorem slot_of_no_collisions (hno : target.collisions document = [])
    (hmode : target.mode = .scalarModule) : target.values = [] ∨
      ∃ value, target.values = [value] ∧ target.Unset (document.lookup target.field) := by
  unfold collisions at hno
  rw [hmode] at hno
  dsimp only at hno
  split_ifs at hno with hset hlong
  · exact .inl (List.map_eq_nil_iff.mp hno)
  · cases hvalues : target.values with
    | nil => exact .inl rfl
    | cons value values =>
      rw [hvalues, List.length_cons] at hlong
      obtain rfl : values = [] := List.length_eq_zero_iff.mp (by omega)
      refine .inr ⟨value, rfl, ?_⟩
      unfold Unset
      rw [hmode]
      simpa [Json.member] using hset

omit [PyNumber ν] in
theorem cleared_patched_slot (hmode : target.mode = .scalarModule) {value : String}
    (hvalues : target.values = [value]) : target.patched old = some (.str value) ∧
      target.cleared (target.patched old) = some .null := by
  have hpatched : target.patched old = some (.str value) := by
    unfold patched
    rw [hmode, hvalues]
    rfl
  refine ⟨hpatched, ?_⟩
  rw [hpatched]
  unfold cleared clearAt
  rw [hmode, hvalues]
  simp [isOneOf]

omit [PyNumber ν] in
theorem cleared_patched_nothing (hmode : target.mode = .scalarModule)
    (hvalues : target.values = []) (old : Option (Json ν)) :
    target.patched old = old ∧ target.cleared old = old := by
  unfold patched cleared clearAt
  rw [hmode, hvalues]
  refine ⟨rfl, if_pos ?_⟩
  cases old.getD .null <;> simp [isOneOf]

/-! ### The collisions afterwards -/

end FieldTargets

/-- The collision is about the value in the field. -/
def Collision.Names (c : Collision ν) (field value : String) : Prop :=
  match c with
  | .entryExists field' value' | .alreadyContains field' value' | .alreadySet field' _ value' =>
    field' = field ∧ value' = value
  | .singleSlot field' values => field' = field ∧ value ∈ values

namespace FieldTargets

variable {target : FieldTargets} [PyNumber ν] {document : Manifest ν} {value : String}

theorem names_of_holds (hmode : target.mode ≠ .scalarModule) (hvalue : value ∈ target.values)
    (h : ∃ entry ∈ existingList document target.field, target.Holds value entry) :
    ∃ c ∈ target.collisions document, c.Names target.field value := by
  obtain ⟨entry, hentry, hholds⟩ := h
  unfold Holds at hholds
  unfold collisions
  split
  · next hrow =>
    rw [hrow] at hholds
    refine ⟨_, List.mem_map_of_mem (List.mem_filter.mpr ⟨hvalue, ?_⟩), rfl, rfl⟩
    exact List.any_eq_true.mpr ⟨entry, hentry, by simp [hholds]⟩
  · next hscalar => exact absurd hscalar hmode
  · next hrow _ =>
    split at hholds
    · next hrow' => exact absurd hrow' hrow
    · refine ⟨_, List.mem_map_of_mem (List.mem_filter.mpr ⟨hvalue, ?_⟩), rfl, rfl⟩
      exact List.any_eq_true.mpr ⟨entry, hentry, isOneOf_singleton.mpr hholds⟩

theorem names_of_slot (hmode : target.mode = .scalarModule) (hvalue : value ∈ target.values)
    (hset : isTruthy (Json.member document target.field) = true) :
    ∃ c ∈ target.collisions document, c.Names target.field value := by
  unfold collisions
  rw [hmode]
  dsimp only
  rw [if_pos hset]
  exact ⟨_, List.mem_map_of_mem hvalue, rfl, rfl⟩

end FieldTargets

/-! ## The whole document -/

/-- What is not the plugin's stays, and entries stay in their order. -/
structure KeepsForeign [PyNumber ν] (targets : List FieldTargets)
    (document document' : Manifest ν) : Prop where
  untargeted : ∀ key ∉ targets.map FieldTargets.field, document'.lookup key = document.lookup key
  listed : ∀ target ∈ targets, target.mode ≠ .scalarModule →
    ((existingList document' target.field).filter fun entry => !target.refers entry) =
      (existingList document target.field).filter fun entry => !target.refers entry
  slots : ∀ target ∈ targets, target.mode = .scalarModule →
    isTruthy (Json.member document target.field) = true →
      isOneOf target.values (Json.member document target.field) = false →
        document'.lookup target.field = document.lookup target.field

/-- Every field is as it was, but for fields that were not set and are empty lists or null. -/
def Restores [PyNumber ν] (targets : List FieldTargets) (document document' : Manifest ν) : Prop :=
  ∀ key, document'.lookup key = document.lookup key ∨
    ∃ target ∈ targets, target.field = key ∧ target.Unset (document.lookup key) ∧
      (document'.lookup key = some (.arr []) ∨ document'.lookup key = some .null)

section

variable {targets : List FieldTargets} (hgrouped : Grouped targets) {document : Manifest ν}

/-- The document after the patch. -/
def patchedDocument (targets : List FieldTargets) (document : Manifest ν) : Manifest ν :=
  targets.foldl (fun document target => target.apply document) document

include hgrouped

theorem lookup_patchedDocument (document : Manifest ν) :
    (∀ target ∈ targets, (patchedDocument targets document).lookup target.field =
      target.patched (document.lookup target.field)) ∧
    ∀ key ∉ targets.map FieldTargets.field,
      (patchedDocument targets document).lookup key = document.lookup key :=
  lookup_foldl (fun _ _ _ => FieldTargets.lookup_apply) hgrouped.fields document

theorem lookup_removeProvides (document : Manifest ν) :
    (∀ target ∈ targets, (removeProvides targets document).lookup target.field =
      target.cleared (document.lookup target.field)) ∧
    ∀ key ∉ targets.map FieldTargets.field,
      (removeProvides targets document).lookup key = document.lookup key :=
  lookup_foldl (fun _ _ _ => FieldTargets.lookup_remove) hgrouped.fields document

variable [PyNumber ν]

theorem keepsForeign_remove (document : Manifest ν) :
    KeepsForeign targets document (removeProvides targets document) where
  untargeted := (lookup_removeProvides hgrouped document).2
  listed target hmem hmode := by
    have hlookup := (lookup_removeProvides hgrouped document).1 target hmem
    have hlist := (FieldTargets.cleared_list hmode (document.lookup target.field)).1
    show (listOf ((removeProvides targets document).lookup target.field)).filter _ = _
    rw [hlookup, hlist, List.filter_filter]
    simp only [Bool.and_self]
    rfl
  slots target hmem hmode _ hforeign := by
    rw [(lookup_removeProvides hgrouped document).1 target hmem]
    refine if_pos ?_
    unfold FieldTargets.clearAt
    rw [hmode]
    simpa [Json.member] using hforeign

theorem keepsForeign_apply (hno : collisions targets document = []) :
    KeepsForeign targets document (patchedDocument targets document) where
  untargeted := (lookup_patchedDocument hgrouped document).2
  listed target hmem hmode := by
    have hlookup := (lookup_patchedDocument hgrouped document).1 target hmem
    obtain ⟨entries, hpatched, -, hkept, -⟩ :=
      FieldTargets.patched_list hmode (document.lookup target.field)
    show (listOf ((patchedDocument targets document).lookup target.field)).filter _ = _
    rw [hlookup, hpatched]
    exact hkept
  slots target hmem hmode hset _ := by
    rw [(lookup_patchedDocument hgrouped document).1 target hmem]
    have hnone := List.flatMap_eq_nil_iff.mp hno target hmem
    obtain hvalues | ⟨value, -, hunset⟩ := FieldTargets.slot_of_no_collisions hnone hmode
    · exact (FieldTargets.cleared_patched_nothing hmode hvalues _).1
    · unfold FieldTargets.Unset at hunset
      rw [hmode] at hunset
      rw [Json.member, hunset] at hset
      cases hset

theorem restores_remove_apply (hno : collisions targets document = []) :
    Restores targets document (removeProvides targets (patchedDocument targets document)) := by
  intro key
  by_cases hkey : key ∈ targets.map FieldTargets.field
  · obtain ⟨target, hmem, rfl⟩ := List.mem_map.mp hkey
    have hnone := List.flatMap_eq_nil_iff.mp hno target hmem
    rw [(lookup_removeProvides hgrouped _).1 target hmem,
      (lookup_patchedDocument hgrouped document).1 target hmem]
    by_cases hmode : target.mode = .scalarModule
    · obtain hvalues | ⟨value, hvalues, hunset⟩ :=
        FieldTargets.slot_of_no_collisions hnone hmode
      · obtain ⟨hpatched, hcleared⟩ := FieldTargets.cleared_patched_nothing hmode hvalues
          (document.lookup target.field)
        rw [hpatched]
        exact .inl hcleared
      · exact .inr ⟨target, hmem, rfl, hunset,
          .inr (FieldTargets.cleared_patched_slot hmode hvalues).2⟩
    · rw [FieldTargets.cleared_patched_list hnone hmode]
      cases hold : document.lookup target.field with
      | some value =>
        cases value with
        | arr entries =>
          left
          unfold existingList
          rw [hold]
        | _ =>
          refine .inr ⟨target, hmem, rfl, ?_, .inl ?_⟩
          · unfold FieldTargets.Unset
            split
            · next hscalar => exact absurd hscalar hmode
            · rintro entries ⟨⟩
          · unfold existingList
            rw [hold]
      | none =>
        refine .inr ⟨target, hmem, rfl, ?_, .inl ?_⟩
        · unfold FieldTargets.Unset
          split
          · next hscalar => exact absurd hscalar hmode
          · rintro entries ⟨⟩
        · unfold existingList
          rw [hold]
  · left
    rw [(lookup_removeProvides hgrouped _).2 key hkey,
      (lookup_patchedDocument hgrouped document).2 key hkey]

/-- Each target is reported afterwards, but for an empty module in a slot. -/
theorem names_of_apply (hno : collisions targets document = []) {target : FieldTargets}
    (hmem : target ∈ targets) {value : String} (hvalue : value ∈ target.values)
    (hslot : target.mode = .scalarModule → value ≠ "") :
    ∃ c ∈ collisions targets (patchedDocument targets document),
      c.Names target.field value := by
  have hlookup := (lookup_patchedDocument hgrouped document).1 target hmem
  have hnone := List.flatMap_eq_nil_iff.mp hno target hmem
  suffices ∃ c ∈ target.collisions (patchedDocument targets document),
      c.Names target.field value by
    obtain ⟨c, hc, hnames⟩ := this
    exact ⟨c, List.mem_flatMap.mpr ⟨target, hmem, hc⟩, hnames⟩
  by_cases hmode : target.mode = .scalarModule
  · obtain hvalues | ⟨value', hvalues, -⟩ := FieldTargets.slot_of_no_collisions hnone hmode
    · rw [hvalues] at hvalue
      cases hvalue
    · obtain rfl : value = value' := by
        rw [hvalues] at hvalue
        exact List.mem_singleton.mp hvalue
      refine FieldTargets.names_of_slot hmode hvalue ?_
      rw [Json.member, hlookup, (FieldTargets.cleared_patched_slot hmode hvalues).1]
      simpa [isTruthy] using hslot hmode
  · obtain ⟨entries, hpatched, -, -, hholds⟩ :=
      FieldTargets.patched_list hmode (document.lookup target.field)
    refine FieldTargets.names_of_holds hmode hvalue ?_
    show ∃ entry ∈ listOf ((patchedDocument targets document).lookup target.field), _
    rw [hlookup, hpatched]
    exact hholds value hvalue

/-- Every router that is added comes before the catch-all. -/
theorem beforeSpa_of_apply (hno : collisions targets document = []) {target : FieldTargets}
    (hmem : target ∈ targets) (hfield : target.field = "routers_modules")
    (hmode : target.mode = .moduleList) {value : String} (hvalue : value ∈ target.values)
    (hne : value ≠ studioSpaRouter) : .str value ∈
      beforeSpa (existingList (patchedDocument targets document) "routers_modules") := by
  have hlookup := (lookup_patchedDocument hgrouped document).1 target hmem
  have hnone := List.flatMap_eq_nil_iff.mp hno target hmem
  unfold FieldTargets.collisions at hnone
  unfold FieldTargets.patched at hlookup
  rw [hmode, hfield] at hlookup hnone
  have hnew : ∀ value ∈ target.values,
      (existingList document "routers_modules").any (isOneOf [value]) = false := by
    intro value hvalue
    have hnot := List.filter_eq_nil_iff.mp (List.map_eq_nil_iff.mp hnone) value hvalue
    simpa using hnot
  show _ ∈ beforeSpa (listOf ((patchedDocument targets document).lookup "routers_modules"))
  rw [hlookup]
  exact (mem_beforeSpa_foldl (hgrouped.values target hmem) hnew).2 value hvalue hne

end

/-! ## Installs and updates -/

section

variable [PyNumber ν] (bindings : κ → Option ManifestBinding)

/-- The preview of `_update_locked`: the collisions of the new spec once the old one is removed;
`none` for a `ManifestBindingError`. -/
def updatePreview (oldSpec newSpec : PluginSpec κ) (document : Manifest ν) :
    Option (List (Collision ν)) := do
  let oldTargets ← groupedTargets bindings oldSpec
  let newTargets ← groupedTargets bindings newSpec
  return collisions newTargets (removeProvides oldTargets document)

/-- The mutator of `_update_locked`; `none` where it raises. -/
def updateMutator (oldSpec newSpec : PluginSpec κ) (document : Manifest ν) :
    Option (Manifest ν) := do
  let oldTargets ← groupedTargets bindings oldSpec
  let newTargets ← groupedTargets bindings newSpec
  applyProvides newTargets (removeProvides oldTargets document)

theorem applyProvides_eq_some {targets : List FieldTargets} {document : Manifest ν} :
    (applyProvides targets document).isSome = true ↔ collisions targets document = [] := by
  unfold applyProvides
  cases collisions targets document <;> simp

theorem updatePreview_eq_nil_iff (oldSpec newSpec : PluginSpec κ) (document : Manifest ν) :
    updatePreview bindings oldSpec newSpec document = some [] ↔
      (updateMutator bindings oldSpec newSpec document).isSome = true := by
  unfold updatePreview updateMutator
  cases groupedTargets bindings oldSpec with
  | none => simp
  | some oldTargets =>
    cases groupedTargets bindings newSpec with
    | none => simp
    | some newTargets => exact Option.some_inj.trans applyProvides_eq_some.symm

/-- A patch without collisions succeeds and is undone by its removal; what is not the plugin's stays
through both, and a catch-all comes after what is added. Each target is then reported, but for an
empty module in a slot. An update is previewed as it turns out. -/
theorem remove_undoes_apply (document : Manifest ν) :
    (∀ spec targets, groupedTargets bindings spec = some targets →
      collisions targets document = [] → ∃ patched, applyProvides targets document = some patched ∧
        (∀ target ∈ targets, ∀ value ∈ target.values,
          (target.mode = .scalarModule → value ≠ "") →
            ∃ c ∈ collisions targets patched, c.Names target.field value) ∧
        Restores targets document (removeProvides targets patched) ∧
        removeProvides targets (removeProvides targets patched) =
          removeProvides targets patched ∧
        KeepsForeign targets document patched ∧
        KeepsForeign targets patched (removeProvides targets patched) ∧
        ∀ target ∈ targets, target.field = "routers_modules" → target.mode = .moduleList →
          ∀ value ∈ target.values, value ≠ studioSpaRouter →
            .str value ∈ beforeSpa (existingList patched "routers_modules")) ∧
    ∀ oldSpec newSpec, updatePreview bindings oldSpec newSpec document = some [] ↔
      (updateMutator bindings oldSpec newSpec document).isSome = true := by
  refine ⟨fun spec targets hspec hno => ?_, fun oldSpec newSpec =>
    updatePreview_eq_nil_iff bindings oldSpec newSpec document⟩
  have hgrouped := grouped_groupedTargets hspec
  refine ⟨patchedDocument targets document, ?_, fun target hmem value =>
    names_of_apply hgrouped hno hmem, restores_remove_apply hgrouped hno,
    removeProvides_removeProvides targets _, keepsForeign_apply hgrouped hno,
    keepsForeign_remove hgrouped _, fun target hmem hfield hmode value =>
      beforeSpa_of_apply hgrouped hno hmem hfield hmode⟩
  unfold applyProvides
  rw [hno]
  rfl

end

/-- A plugin of one router and one backend, in the bindings of these kinds. -/
inductive PatchKind where
  | router
  | backend

def patchBindings : PatchKind → Option ManifestBinding
  | .router => some ⟨.moduleList, some "routers_modules"⟩
  | .backend => some ⟨.scalarModule, some "backend_module"⟩

theorem restores_router : ∃ targets patched,
    groupedTargets patchBindings ⟨"plugin", [⟨.router, "plugin.routes"⟩]⟩ = some targets ∧
    applyProvides targets ([("routers_modules", .arr [.str studioSpaRouter])] : Manifest ℤ) =
      some patched ∧
    Restores targets [("routers_modules", .arr [.str studioSpaRouter])]
      (removeProvides targets patched) ∧
    .str "plugin.routes" ∈ beforeSpa (existingList patched "routers_modules") := by
  obtain ⟨patched, happly, -, hrestores, -, -, -, hspa⟩ :=
    (remove_undoes_apply patchBindings
      ([("routers_modules", .arr [.str studioSpaRouter])] : Manifest ℤ)).1
      ⟨"plugin", [⟨.router, "plugin.routes"⟩]⟩ [⟨"routers_modules", .moduleList,
        ["plugin.routes"]⟩] rfl rfl
  exact ⟨_, patched, rfl, happly, hrestores,
    hspa _ List.mem_cons_self rfl rfl _ List.mem_cons_self (by decide)⟩

/-- An empty module in the slot of the backend is not reported. -/
theorem unreported_empty_module : ∃ targets patched,
    groupedTargets patchBindings ⟨"plugin", [⟨.backend, ""⟩]⟩ = some targets ∧
    applyProvides targets ([] : Manifest ℤ) = some patched ∧ collisions targets patched = [] ∧
    targets = [⟨"backend_module", .scalarModule, [""]⟩] :=
  ⟨_, _, rfl, rfl, rfl, rfl⟩

end TaiSkeleton.Marketplace
