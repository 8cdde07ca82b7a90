import TaiSkeleton.Connectors.ManagedEntries

/-!
# Consistent worlds

The worlds in which each record has the sub-services enabled that the manifest has entries for, and
what a new connection, a reconciliation and a disconnect make of them.
-/

namespace TaiSkeleton.Connectors.Service

open Lib

/-! ## Consistent worlds -/

namespace World

/-- The sub-services that the record of a connection has enabled. -/
def enabled (w : World) (connectionId : String) : List String :=
  ((w.record connectionId).map ConnectionRecord.enabledSubServices).getD []

/-- Each record has the sub-services enabled that its connection has entries for. The entries have
the titles that the service gives them, and a flow is one of its connection's provider. -/
structure Consistent (w : World) : Prop where
  agrees : ∀ connectionId subId,
    subId ∈ w.enabled connectionId ↔ subId ∈ managedSubs w.manifest connectionId
  titled : ∀ entry ∈ w.manifest, ∀ managed ∈ entry.managed,
    ∀ record ∈ w.record managed.connectionId,
      entry.title = managedTitle record.providerId managed.subService record.aliasName
  flows : ∀ flowId, ∀ flow ∈ w.flows flowId, ∀ connectionId ∈ flow.reconnectConnectionId,
    ∀ record ∈ w.record connectionId, flow.providerId = record.providerId

end World

namespace Chance

/-- The identifier of a new connection is that of no other. -/
def Fresh (chance : Chance) (w : World) : Prop :=
  (∀ row ∈ w.rows, row.connectionId ≠ chance.connectionId) ∧
  ∀ flowId, ∀ flow ∈ w.flows flowId, flow.reconnectConnectionId ≠ some chance.connectionId

/-- Where the record is written, its write and that of the manifest return. -/
def Settles (chance : Chance) (mutator : List ManifestEntry → Option (List ManifestEntry))
    (w : World) : Prop :=
  chance.persists ≠ .landsAndRaises ∧
    (chance.persists = .lands → (mutator w.manifest).isSome ∧ chance.applies = .lands)

end Chance

/-! ## Rows -/

namespace World

variable {w : World} {record record' : ConnectionRecord} {connectionId : String}

theorem connectionId_of_record (h : w.record connectionId = some record) :
    record.connectionId = connectionId := by
  have hfound := List.find?_some (p := fun row : ConnectionRecord =>
    decide (row.connectionId = connectionId)) h
  exact of_decide_eq_true hfound

theorem mem_rows_of_record (h : w.record connectionId = some record) : record ∈ w.rows :=
  List.mem_of_find?_eq_some h

theorem record_replace (w : World) (record : ConnectionRecord) (connectionId : String) :
    (w.replace record).record connectionId =
      if connectionId = record.connectionId then (w.record connectionId).map fun _ => record
      else w.record connectionId := by
  have hcomp : ((fun row : ConnectionRecord => decide (row.connectionId = connectionId)) ∘
      fun row => if row.connectionId = record.connectionId then record else row) =
      fun row => decide (row.connectionId = connectionId) := by
    funext row
    show decide ((if row.connectionId = record.connectionId then record
      else row).connectionId = connectionId) = _
    split_ifs with hrow
    · rw [hrow]
    · rfl
  show (w.rows.map _).find? _ = _
  rw [List.find?_map, hcomp]
  show (w.record connectionId).map _ = _
  cases hrow : w.record connectionId with
  | none => split_ifs <;> rfl
  | some row =>
    rw [Option.map_some, connectionId_of_record hrow]
    split_ifs <;> rfl

theorem record_delete (w : World) (deletedId connectionId : String) :
    (w.delete deletedId).record connectionId =
      if connectionId = deletedId then none else w.record connectionId := by
  show (w.rows.filter _).find? _ = _
  rw [List.find?_filter]
  split_ifs with hid
  · subst hid
    refine List.find?_eq_none.mpr fun row _ => ?_
    simp
  · refine congrArg (fun p => w.rows.find? p) ?_
    funext row
    by_cases hrow : row.connectionId = connectionId
    · simp [hrow, hid]
    · simp [hrow]

theorem record_append (w : World) (hnew : w.record record.connectionId = none)
    (connectionId : String) :
    ({ w with rows := w.rows ++ [record] } : World).record connectionId =
      if connectionId = record.connectionId then some record else w.record connectionId := by
  show (w.rows ++ [record]).find? _ = _
  rw [List.find?_append]
  split_ifs with hid
  · subst hid
    show (w.record _).or _ = _
    rw [hnew, Option.none_or, List.find?_singleton, if_pos (decide_eq_true rfl)]
  · rw [List.find?_cons_of_neg (by simpa using Ne.symm hid), List.find?_nil, Option.or_none]
    rfl

theorem record_eq_none (hnew : ∀ row ∈ w.rows, row.connectionId ≠ connectionId) :
    w.record connectionId = none :=
  List.find?_eq_none.mpr fun row hrow => by simpa using hnew row hrow

/-! ## What keeps a world consistent -/

theorem enabled_of_record (h : w.record connectionId = some record) :
    w.enabled connectionId = record.enabledSubServices := by
  rw [enabled, h]
  rfl

theorem Consistent.setFlow (h : w.Consistent) {flowId : String} {flow : Option OAuthFlowState}
    (hflow : ∀ flow' ∈ flow, ∀ connectionId ∈ flow'.reconnectConnectionId,
      ∀ record ∈ w.record connectionId, flow'.providerId = record.providerId) :
    (w.setFlow flowId flow).Consistent where
  agrees := h.agrees
  titled := h.titled
  flows := by
    intro flowId' flow' hflow' connectionId hid record hrecord
    have hupdated : (if flowId' = flowId then flow else w.flows flowId') = some flow' :=
      (Function.update_apply w.flows flowId flow flowId').symm.trans hflow'
    split_ifs at hupdated
    · exact hflow flow' hupdated connectionId hid record hrecord
    · exact h.flows flowId' flow' hupdated connectionId hid record hrecord

/-- A title of the connection is that of a sub-service that it has an entry for. -/
theorem Consistent.mem_managedSubs_of_title (h : w.Consistent)
    (hrecord : w.record connectionId = some record) {entry : ManifestEntry}
    (hentry : entry ∈ w.manifest) {subId : String}
    (htitle : entry.title = managedTitle record.providerId subId record.aliasName)
    (hmanaged : ∃ managed ∈ entry.managed, managed.connectionId = connectionId) :
    subId ∈ managedSubs w.manifest connectionId := by
  obtain ⟨managed, hmanaged, rfl⟩ := hmanaged
  have htitled := h.titled entry hentry managed hmanaged record hrecord
  have hsub := managedTitle_injective (htitled.symm.trans htitle)
  exact mem_managedSubs.mpr ⟨entry, hentry, managed, hmanaged, rfl, hsub⟩

/-- The manifest is reconciled with what the record of a connection has enabled. -/
theorem Consistent.reconcile (h : w.Consistent) (record' : ConnectionRecord)
    (hrecord : w.record connectionId = some record) (hid : record'.connectionId = connectionId)
    (hprovider : record'.providerId = record.providerId)
    (halias : record'.aliasName = record.aliasName) {descriptor : ProviderDescriptor}
    (hdescriptor : descriptor.id = record.providerId) {toRemove toAdd : List String}
    {manifest : List ManifestEntry}
    (hmanifest : Service.reconcile descriptor record.aliasName connectionId toRemove toAdd
      w.manifest = some manifest)
    (hadd : ∀ subId ∈ toAdd, subId ∉ record.enabledSubServices)
    (henabled : ∀ subId, subId ∈ record'.enabledSubServices ↔
      subId ∈ record.enabledSubServices ∧ subId ∉ toRemove ∨ subId ∈ toAdd) :
    ({ w.replace record' with manifest } : World).Consistent := by
  subst hid
  have hsame : ∀ subId, subId ∈ managedSubs w.manifest record'.connectionId ↔
      subId ∈ record.enabledSubServices := fun subId => by
    rw [← h.agrees, enabled_of_record hrecord]
  -- a title that the connection owned already would be that of a sub-service that is enabled
  have hfree : ∀ entry ∈ removeManagedEntries record'.connectionId (some toRemove) w.manifest,
      ∀ subId ∈ toAdd, entry.title = managedTitle descriptor.id subId record.aliasName →
        ∀ managed ∈ entry.managed, managed.connectionId ≠ record'.connectionId := by
    intro entry hentry subId hsub htitle managed hmanaged hown
    rw [hdescriptor] at htitle
    have howned := h.mem_managedSubs_of_title hrecord (mem_of_mem_remove hentry) htitle
      ⟨managed, hmanaged, hown⟩
    exact hadd subId hsub ((hsame subId).mp howned)
  have hmanifest' := addManagedEntries_eq hfree hmanifest
  have hrecords : ∀ other, ({ w.replace record' with manifest } : World).record other =
      if other = record'.connectionId then some record' else w.record other := by
    intro other
    refine (record_replace w record' other).trans ?_
    split_ifs with hother
    · rw [hother, hrecord]
      rfl
    · rfl
  refine ⟨fun other subId => ?_, fun entry hentry managed hmanaged old hold => ?_,
    fun flowId flow hflow other hother old hold => ?_⟩
  · rw [enabled, hrecords]
    show _ ↔ subId ∈ managedSubs manifest other
    rw [hmanifest', mem_managedSubs_append, mem_managedSubs_remove]
    split_ifs with hother
    · subst hother
      rw [hsame]
      simpa using henabled subId
    · simpa [hother, enabled] using h.agrees other subId
  · rw [hrecords] at hold
    change entry ∈ manifest at hentry
    rw [hmanifest', List.mem_append, List.mem_map] at hentry
    obtain hentry | ⟨subId, hsub, rfl⟩ := hentry
    · split_ifs at hold with hown
      · obtain rfl := Option.some.inj hold
        rw [hprovider, halias]
        exact h.titled entry (mem_of_mem_remove hentry) managed hmanaged record
          (hown ▸ hrecord)
      · exact h.titled entry (mem_of_mem_remove hentry) managed hmanaged old hold
    · obtain rfl := Option.some.inj hmanaged
      rw [if_pos rfl] at hold
      obtain rfl := Option.some.inj hold
      rw [hprovider, halias, ← hdescriptor]
      rfl
  · rw [hrecords] at hold
    split_ifs at hold with hown
    · obtain rfl := Option.some.inj hold
      rw [hprovider]
      exact h.flows flowId flow hflow other hother record (hown ▸ hrecord)
    · exact h.flows flowId flow hflow other hother old hold

/-- Nothing is taken from the manifest, and nothing added. -/
theorem reconcile_nil {descriptor : ProviderDescriptor} {aliasName : String}
    (entries : List ManifestEntry) :
    Service.reconcile descriptor aliasName connectionId [] [] entries = some entries := by
  have hnone : ∀ entry ∈ entries, decide (¬entry.ownedBy connectionId (some [])) = true := by
    rintro entry -
    rw [decide_eq_true_eq]
    rintro ⟨managed, -, -, hmem⟩
    exact List.not_mem_nil (hmem [] rfl)
  show some (entries.filter _) = _
  rw [List.filter_eq_self.mpr hnone]

/-- A new connection has a record and its entries. -/
theorem Consistent.connect (h : w.Consistent) (record : ConnectionRecord)
    (hnew : ∀ row ∈ w.rows, row.connectionId ≠ record.connectionId)
    (hflows : ∀ flowId, ∀ flow ∈ w.flows flowId,
      flow.reconnectConnectionId ≠ some record.connectionId)
    {descriptor : ProviderDescriptor} (hdescriptor : descriptor.id = record.providerId)
    {manifest : List ManifestEntry}
    (hmanifest : addManagedEntries descriptor record.enabledSubServices record.aliasName
      record.connectionId w.manifest = some manifest) :
    ({ w with rows := w.rows ++ [record], manifest } : World).Consistent := by
  have hnone := record_eq_none hnew
  have hempty : ∀ subId, subId ∉ managedSubs w.manifest record.connectionId := by
    intro subId hmem
    have henabled := (h.agrees record.connectionId subId).mpr hmem
    rw [enabled, hnone] at henabled
    exact List.not_mem_nil henabled
  have hmanifest' := addManagedEntries_eq (fun entry hentry subId _ _ managed hmanaged hown =>
    hempty managed.subService (mem_managedSubs.mpr ⟨entry, hentry, managed, hmanaged, hown, rfl⟩))
    hmanifest
  have hrecords : ∀ other,
      ({ w with rows := w.rows ++ [record], manifest } : World).record other =
        if other = record.connectionId then some record else w.record other :=
    record_append w hnone
  refine ⟨fun other subId => ?_, fun entry hentry managed hmanaged old hold => ?_,
    fun flowId flow hflow other hother old hold => ?_⟩
  · rw [enabled, hrecords]
    show _ ↔ subId ∈ managedSubs manifest other
    rw [hmanifest', mem_managedSubs_append]
    split_ifs with hother
    · subst hother
      simp [hempty subId]
    · simpa [hother, enabled] using h.agrees other subId
  · rw [hrecords] at hold
    change entry ∈ manifest at hentry
    rw [hmanifest', List.mem_append, List.mem_map] at hentry
    obtain hentry | ⟨subId, -, rfl⟩ := hentry
    · split_ifs at hold with hown
      · exact absurd (mem_managedSubs.mpr ⟨entry, hentry, managed, hmanaged, hown, rfl⟩)
          (hempty managed.subService)
      · exact h.titled entry hentry managed hmanaged old hold
    · obtain rfl := Option.some.inj hmanaged
      rw [if_pos rfl] at hold
      obtain rfl := Option.some.inj hold
      rw [← hdescriptor]
      rfl
  · rw [hrecords] at hold
    split_ifs at hold with hown
    · exact absurd (hown ▸ hother) (hflows flowId flow hflow)
    · exact h.flows flowId flow hflow other hother old hold

/-- Once a connection has neither record nor entries, the others are as they were. -/
theorem Consistent.disconnect (h : w.Consistent) (connectionId : String) :
    ({ w.delete connectionId with
        manifest := removeManagedEntries connectionId none w.manifest } : World).Consistent := by
  have hrecords : ∀ other, ({ w.delete connectionId with
      manifest := removeManagedEntries connectionId none w.manifest } : World).record other =
        if other = connectionId then none else w.record other :=
    record_delete w connectionId
  refine ⟨fun other subId => ?_, fun entry hentry managed hmanaged old hold => ?_,
    fun flowId flow hflow other hother old hold => ?_⟩
  · rw [enabled, hrecords]
    show _ ↔ subId ∈ managedSubs (removeManagedEntries connectionId none w.manifest) other
    rw [mem_managedSubs_remove]
    split_ifs with hother
    · simp [hother]
    · simpa [hother, enabled] using h.agrees other subId
  · rw [hrecords] at hold
    split_ifs at hold
    · cases hold
    · exact h.titled entry (mem_of_mem_remove hentry) managed hmanaged old hold
  · rw [hrecords] at hold
    split_ifs at hold
    · cases hold
    · exact h.flows flowId flow hflow other hother old hold

end World

end TaiSkeleton.Connectors.Service
