import TaiSkeleton.Connectors.ConnectionService

/-!
# Managed entries

What the mutators of the manifest leave of the sub-services that each connection has entries for.
-/

namespace TaiSkeleton.Connectors.Service

open Lib

/-! ## Titles -/

theorem managedTitle_injective {providerId subId subId' aliasName : String}
    (h : managedTitle providerId subId aliasName = managedTitle providerId subId' aliasName) :
    subId = subId' := by
  have htexts := congrArg String.toList h
  simp only [managedTitle, String.toList_append, List.append_assoc] at htexts
  have hsub := List.append_cancel_left (List.append_cancel_left htexts)
  exact String.toList_inj.mp (List.append_cancel_right hsub)

/-- The entry of a sub-service. -/
def entryOf (descriptor : ProviderDescriptor) (aliasName connectionId subId : String) :
    ManifestEntry where
  title := managedTitle descriptor.id subId aliasName
  managed := some ⟨connectionId, descriptor.id, subId⟩

theorem eq_entryOf_of_buildEntry {descriptor : ProviderDescriptor}
    {aliasName connectionId subId : String} {entry : ManifestEntry}
    (h : buildEntry descriptor aliasName connectionId subId = some entry) :
    entry = entryOf descriptor aliasName connectionId subId := by
  obtain ⟨_, -, rfl⟩ := Option.map_eq_some_iff.mp h
  rfl

/-! ## Sub-services -/

/-- The sub-services that a connection has entries for. -/
def managedSubs (entries : List ManifestEntry) (connectionId : String) : List String :=
  entries.filterMap fun entry => entry.managed.bind fun managed =>
    if managed.connectionId = connectionId then some managed.subService else none

variable {entries entries' : List ManifestEntry} {connectionId subId : String}

theorem mem_managedSubs : subId ∈ managedSubs entries connectionId ↔
    ∃ entry ∈ entries, ∃ managed, entry.managed = some managed ∧
      managed.connectionId = connectionId ∧ managed.subService = subId := by
  simp only [managedSubs, List.mem_filterMap, Option.bind_eq_some_iff,
    Option.ite_none_right_eq_some, Option.some.injEq]

theorem mem_managedSubs_remove {ownerId : String} {subServices : Option (List String)} :
    subId ∈ managedSubs (removeManagedEntries ownerId subServices entries) connectionId ↔
      subId ∈ managedSubs entries connectionId ∧
        ¬(connectionId = ownerId ∧ ∀ subSet ∈ subServices, subId ∈ subSet) := by
  simp only [mem_managedSubs, removeManagedEntries, List.mem_filter, decide_eq_true_eq]
  constructor
  · rintro ⟨entry, ⟨hmem, hnot⟩, managed, hmanaged, rfl, rfl⟩
    exact ⟨⟨entry, hmem, managed, hmanaged, rfl, rfl⟩,
      fun howned => hnot ⟨managed, hmanaged, howned⟩⟩
  · rintro ⟨⟨entry, hmem, managed, hmanaged, rfl, rfl⟩, hnot⟩
    refine ⟨entry, ⟨hmem, ?_⟩, managed, hmanaged, rfl, rfl⟩
    rintro ⟨managed', hmanaged', howned⟩
    obtain rfl := Option.some.inj (hmanaged'.symm.trans hmanaged)
    exact hnot howned

/-- What is removed is taken from the entries. -/
theorem mem_of_mem_remove {subServices : Option (List String)} {entry : ManifestEntry}
    (h : entry ∈ removeManagedEntries connectionId subServices entries) : entry ∈ entries :=
  (List.mem_filter.mp h).1

/-- A fold each round of which appends what `g` makes. -/
theorem eq_append_of_foldlM {α β : Type} {f : List β → α → Option (List β)} {g : α → β}
    {l : List α} {init final : List β}
    (hround : ∀ added, ∀ a ∈ l, ∀ added', f added a = some added' → added' = added ++ [g a])
    (h : l.foldlM f init = some final) : final = init ++ l.map g := by
  induction l generalizing init with
  | nil =>
    obtain rfl := Option.some.inj h
    exact (List.append_nil _).symm
  | cons a l ih =>
    rw [List.foldlM_cons] at h
    obtain ⟨added, hadded, hrest⟩ := Option.bind_eq_some_iff.mp h
    rw [ih (fun added b hmem => hround added b (List.mem_cons_of_mem _ hmem)) hrest,
      hround _ a List.mem_cons_self _ hadded, List.map_cons, List.append_assoc,
      List.singleton_append]

/-- Where the connection owns none of the titles, each sub-service is appended. -/
theorem addManagedEntries_eq {descriptor : ProviderDescriptor} {aliasName : String}
    {subServices : List String}
    (hfree : ∀ entry ∈ entries, ∀ subId ∈ subServices,
      entry.title = managedTitle descriptor.id subId aliasName →
        ∀ managed ∈ entry.managed, managed.connectionId ≠ connectionId)
    (h : addManagedEntries descriptor subServices aliasName connectionId entries = some entries') :
    entries' = entries ++ subServices.map (entryOf descriptor aliasName connectionId) := by
  unfold addManagedEntries at h
  refine eq_append_of_foldlM (fun added subId hsub added' hround => ?_) h
  obtain ⟨entry, hentry, hadded⟩ := Option.bind_eq_some_iff.mp hround
  obtain rfl := eq_entryOf_of_buildEntry hentry
  split at hadded
  · next current hcurrent =>
    obtain ⟨_, howned, -⟩ := Option.bind_eq_some_iff.mp hadded
    obtain ⟨managed, hmanaged, hid⟩ : ∃ managed ∈ current.managed,
        managed.connectionId = connectionId := by
      rw [guard] at howned
      split_ifs at howned with hid
      exact hid
    have htitle := List.find?_some hcurrent
    rw [decide_eq_true_eq] at htitle
    have hmem : current ∈ entries := by
      simpa using List.mem_of_find?_eq_some hcurrent
    exact absurd hid (hfree current hmem subId hsub htitle managed hmanaged)
  · exact (Option.some.inj hadded).symm

theorem mem_managedSubs_append {descriptor : ProviderDescriptor} {aliasName ownerId : String}
    {subServices : List String} :
    subId ∈ managedSubs (entries ++ subServices.map (entryOf descriptor aliasName ownerId))
        connectionId ↔
      subId ∈ managedSubs entries connectionId ∨ connectionId = ownerId ∧ subId ∈ subServices := by
  simp only [mem_managedSubs, List.mem_append, List.mem_map, or_and_right, exists_or]
  refine or_congr Iff.rfl ⟨?_, ?_⟩
  · rintro ⟨_, ⟨subId', hmem, rfl⟩, managed, hmanaged, rfl, rfl⟩
    obtain rfl := Option.some.inj hmanaged
    exact ⟨rfl, hmem⟩
  · rintro ⟨rfl, hmem⟩
    exact ⟨_, ⟨subId, hmem, rfl⟩, _, rfl, rfl, rfl⟩

/-! ## Sets of names -/

@[simp] theorem mem_sortedSet {names : List String} {name : String} :
    name ∈ sortedSet names ↔ name ∈ names := by
  rw [sortedSet, List.mem_mergeSort, List.mem_dedup]

@[simp] theorem mem_minus {names others : List String} {name : String} :
    name ∈ minus names others ↔ name ∈ names ∧ name ∉ others := by
  rw [minus, List.mem_filter, decide_eq_true_eq]

end TaiSkeleton.Connectors.Service
