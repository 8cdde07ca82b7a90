import Mathlib.Data.List.Basic

/-!
# Dictionaries from pairs

The dictionary of a list of pairs holds each key once, at the value of its last pair. An update of
a dictionary keeps its keys in place, and has the new ones after them.
-/

namespace Lib

variable {α β : Type} [BEq α] [LawfulBEq α]

/-- A Python `dict` of pairs. -/
def dictOf : List (α × β) → List (α × β)
  | [] => []
  | (key, value) :: pairs =>
    if (dictOf pairs).any fun entry => entry.1 == key then dictOf pairs
    else (key, value) :: dictOf pairs

theorem mem_dictOf_iff {l : List (α × β)} {key : α} {value : β} :
    (key, value) ∈ dictOf l ↔ l.reverse.lookup key = some value := by
  induction l generalizing key value with
  | nil => simp [dictOf]
  | cons pair l ih =>
    obtain ⟨k, v⟩ := pair
    have hnone : ((dictOf l).any fun entry => entry.1 == k) = true ↔
        ∃ w, l.reverse.lookup k = some w := by
      rw [List.any_eq_true]
      constructor
      · rintro ⟨⟨k', w⟩, hmem, hk⟩
        obtain rfl : k' = k := eq_of_beq hk
        exact ⟨w, ih.mp hmem⟩
      · rintro ⟨w, hw⟩
        exact ⟨(k, w), ih.mpr hw, beq_self_eq_true k⟩
    rw [List.reverse_cons, List.lookup_append]
    unfold dictOf
    split_ifs with hany
    · rw [ih]
      obtain ⟨w, hw⟩ := hnone.mp hany
      cases hl : l.reverse.lookup key with
      | some u => simp
      | none =>
        have hne : (key == k) = false := by
          refine beq_eq_false_iff_ne.mpr ?_
          rintro rfl
          rw [hw] at hl
          exact absurd hl (by simp)
        simp [List.lookup_cons, hne]
    · rw [List.mem_cons, ih]
      cases hl : l.reverse.lookup key with
      | some u =>
        have hne : key ≠ k := by
          rintro rfl
          exact hany (hnone.mpr ⟨u, hl⟩)
        simp [hne]
      | none =>
        by_cases hk : key = k
        · simp [hk, eq_comm]
        · have hb : (key == k) = false := by simpa using hk
          simp [hk, List.lookup_cons, hb]

/-! ## Updates -/

/-- `{**dict, **update}` -/
def updated (dict update : List (α × β)) : List (α × β) :=
  dict.map (fun (key, value) => (key, (update.lookup key).getD value)) ++
    update.filter fun (key, _) => (dict.lookup key).isNone

theorem lookup_map_value (f : α → β → β) (l : List (α × β)) (key : α) :
    (l.map fun (k, v) => (k, f k v)).lookup key = (l.lookup key).map (f key) := by
  induction l with
  | nil => rfl
  | cons pair l ih =>
    obtain ⟨k, v⟩ := pair
    rw [List.map_cons, List.lookup_cons, List.lookup_cons, ih]
    cases h : key == k with
    | false => rfl
    | true =>
      rw [eq_of_beq h]
      rfl

theorem lookup_filter_key (p : α → Bool) (l : List (α × β)) (key : α) :
    (l.filter fun (k, _) => p k).lookup key = if p key then l.lookup key else none := by
  induction l with
  | nil => simp
  | cons pair l ih =>
    obtain ⟨k, v⟩ := pair
    rw [List.filter_cons, List.lookup_cons]
    by_cases hk : p k = true
    · rw [if_pos hk, List.lookup_cons, ih]
      cases h : key == k with
      | false => rfl
      | true =>
        obtain rfl := eq_of_beq h
        exact (if_pos hk).symm
    · rw [if_neg hk]
      cases h : key == k with
      | false => exact ih
      | true =>
        obtain rfl := eq_of_beq h
        rw [if_neg hk] at ih ⊢
        exact ih

/-- An update overrides. -/
theorem lookup_updated (dict update : List (α × β)) (key : α) :
    (updated dict update).lookup key = (update.lookup key).or (dict.lookup key) := by
  unfold updated
  rw [List.lookup_append, lookup_map_value fun key value => (update.lookup key).getD value,
    lookup_filter_key fun key => (dict.lookup key).isNone]
  cases dict.lookup key with
  | none => simp
  | some value => cases update.lookup key <;> rfl

/-- The updates of a dictionary one after another, where all that have a key agree on it. -/
theorem lookup_foldl_updated {γ : Type} {f : γ → List (α × β)} {l : List γ} {dict : List (α × β)}
    {key : α} {value : β} (hagree : ∀ c ∈ l, ∀ v, (f c).lookup key = some v → v = value)
    (hsome : dict.lookup key = some value ∨ ∃ c ∈ l, (f c).lookup key = some value) :
    (l.foldl (fun all c => updated all (f c)) dict).lookup key = some value := by
  induction l generalizing dict with
  | nil =>
    rcases hsome with hdict | ⟨c, hmem, -⟩
    · exact hdict
    · cases hmem
  | cons c l ih =>
    refine ih (fun c' hmem => hagree c' (List.mem_cons_of_mem _ hmem)) ?_
    rw [lookup_updated]
    cases hc : (f c).lookup key with
    | some v =>
      rw [hagree c (List.mem_cons_self ..) v hc]
      exact .inl rfl
    | none =>
      rcases hsome with hdict | ⟨c', hmem, hc'⟩
      · exact .inl hdict
      · refine .inr ⟨c', (List.mem_cons.mp hmem).resolve_left ?_, hc'⟩
        rintro rfl
        rw [hc] at hc'
        cases hc'

theorem lookup_foldl_updated_none {γ : Type} {f : γ → List (α × β)} {l : List γ}
    {dict : List (α × β)} {key : α} (h : ∀ c ∈ l, (f c).lookup key = none) :
    (l.foldl (fun all c => updated all (f c)) dict).lookup key = dict.lookup key := by
  induction l generalizing dict with
  | nil => rfl
  | cons c l ih =>
    refine (ih fun c' hmem => h c' (List.mem_cons_of_mem _ hmem)).trans ?_
    rw [lookup_updated, h c (List.mem_cons_self ..), Option.none_or]

/-! ## Single keys -/

/-- `dict[key] = value` -/
def dictPut (dict : List (α × β)) (key : α) (value : β) : List (α × β) :=
  updated dict [(key, value)]

/-- `dict.pop(key, None)` -/
def dictPop (dict : List (α × β)) (key : α) : List (α × β) :=
  dict.filter fun (k, _) => !(k == key)

theorem lookup_dictPut (dict : List (α × β)) (key k : α) (value : β) :
    (dictPut dict key value).lookup k = if k == key then some value else dict.lookup k := by
  rw [dictPut, lookup_updated, List.lookup_cons, List.lookup_nil]
  cases k == key with
  | false => rfl
  | true => rfl

theorem lookup_dictPop (dict : List (α × β)) (key k : α) :
    (dictPop dict key).lookup k = if k == key then none else dict.lookup k := by
  rw [dictPop, lookup_filter_key fun k => !(k == key)]
  cases k == key with
  | false => rfl
  | true => rfl

theorem mem_of_lookup {l : List (α × β)} {key : α} {value : β} (h : l.lookup key = some value) :
    (key, value) ∈ l := by
  induction l with
  | nil => cases h
  | cons pair l ih =>
    obtain ⟨k, v⟩ := pair
    rw [List.lookup_cons] at h
    cases hk : key == k with
    | true =>
      rw [hk] at h
      rw [eq_of_beq hk, Option.some.inj h]
      exact List.mem_cons_self ..
    | false =>
      rw [hk] at h
      exact List.mem_cons_of_mem _ (ih h)

theorem mem_dictPut {dict : List (α × β)} {key : α} {value : β} {entry : α × β}
    (h : entry ∈ dictPut dict key value) : entry ∈ dict ∨ entry = (key, value) := by
  rw [dictPut, updated, List.mem_append, List.mem_map, List.mem_filter] at h
  rcases h with ⟨⟨k, v⟩, hmem, rfl⟩ | ⟨hmem, -⟩
  · cases hk : k == key with
    | true =>
      right
      simp [eq_of_beq hk]
    | false =>
      left
      simpa [List.lookup_cons, hk] using hmem
  · exact .inr (List.mem_singleton.mp hmem)

omit [LawfulBEq α] in
theorem map_fst_dictPut (dict : List (α × β)) (key : α) (value : β) :
    (dictPut dict key value).map Prod.fst =
      dict.map Prod.fst ++ if (dict.lookup key).isNone then [key] else [] := by
  rw [dictPut, updated, List.map_append, List.map_map]
  congr 1
  cases h : (dict.lookup key).isNone with
  | false => simp [h]
  | true => simp [h]

/-- The keys of a dictionary stay distinct. -/
theorem nodup_dictPut {dict : List (α × β)} (h : (dict.map Prod.fst).Nodup) (key : α) (value : β) :
    ((dictPut dict key value).map Prod.fst).Nodup := by
  rw [map_fst_dictPut]
  split_ifs with hnone
  · refine List.nodup_append.mpr ⟨h, List.pairwise_singleton _ key, ?_⟩
    rintro k hmem k' hk' rfl
    obtain rfl := List.mem_singleton.mp hk'
    obtain ⟨⟨k, v⟩, hpair, rfl⟩ := List.mem_map.mp hmem
    have hk := List.lookup_eq_none_iff.mp (Option.isNone_iff_eq_none.mp hnone) _ hpair
    simp at hk
  · rwa [List.append_nil]

omit [LawfulBEq α] in
theorem nodup_dictPop {dict : List (α × β)} (h : (dict.map Prod.fst).Nodup) (key : α) :
    ((dictPop dict key).map Prod.fst).Nodup :=
  h.sublist (List.filter_sublist.map _)

theorem lookup_of_mem {dict : List (α × β)} (h : (dict.map Prod.fst).Nodup) {key : α} {value : β}
    (hmem : (key, value) ∈ dict) : dict.lookup key = some value := by
  induction dict with
  | nil => cases hmem
  | cons pair dict ih =>
    obtain ⟨k, v⟩ := pair
    rw [List.map_cons, List.nodup_cons] at h
    rw [List.lookup_cons]
    rcases List.mem_cons.mp hmem with heq | htail
    · obtain ⟨rfl, rfl⟩ := Prod.mk.inj heq
      simp
    · have hne : (key == k) = false := by
        refine beq_eq_false_iff_ne.mpr ?_
        rintro rfl
        exact h.1 (List.mem_map.mpr ⟨_, htail, rfl⟩)
      rw [hne]
      exact ih h.2 htail

theorem lookup_filterMap_value {γ : Type} {f : α → β → Option γ} {l : List (α × β)} {key : α}
    (h : ∀ value, l.lookup key = some value → (f key value).isSome) :
    (l.filterMap fun (k, v) => (f k v).map (k, ·)).lookup key = (l.lookup key).bind (f key) := by
  induction l with
  | nil => rfl
  | cons pair l ih =>
    obtain ⟨k, v⟩ := pair
    rw [List.lookup_cons] at h ⊢
    cases hk : key == k with
    | true =>
      obtain rfl := eq_of_beq hk
      obtain ⟨c, hc⟩ := Option.isSome_iff_exists.mp (h v (by simp))
      simp [hc]
    | false =>
      rw [hk] at h
      cases hf : f k v with
      | none =>
        simp only [List.filterMap_cons, hf, Option.map_none]
        exact ih h
      | some c =>
        simp only [List.filterMap_cons, hf, Option.map_some, List.lookup_cons, hk]
        exact ih h

end Lib
