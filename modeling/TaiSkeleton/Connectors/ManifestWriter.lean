import Mathlib.Data.Option.Basic
import TaiSkeleton.Connectors.ManagedEntries
import TaiSkeleton.Lib.Run

/-!
# The writer of the managed entries

`add_managed_entries` and `remove_managed_entries` on whole manifest documents, with the other
fields of an entry and of the document. The titles of a document are read once, before the loop
that appends: what it appends itself it does not see.
-/

namespace TaiSkeleton.Connectors.Writer

open Lib Service

/-- An entry of the document with its fields besides. -/
structure Entry (ν : Type) extends ManifestEntry where
  config : ν
deriving DecidableEq

/-- A manifest document: its `mcp` list, where it has one, and its other fields. -/
structure Document (ν ρ : Type) where
  mcp : Option (List (Entry ν))
  rest : ρ
deriving DecidableEq

inductive WriteError where
  /-- The error of `_build_entry`. -/
  | unbuildable (subId : String)
  | collision (title connectionId : String)
deriving DecidableEq

/-- The arguments of an `add_managed_entries`. -/
structure Addition where
  descriptor : ProviderDescriptor
  enabledSubServices : List String
  aliasName : String
  connectionId : String

section

variable {ν ρ : Type} (dump : ProviderDescriptor → String → ν)

def Document.entries (document : Document ν ρ) : List (Entry ν) := document.mcp.getD []

namespace Addition

variable (call : Addition)

def title (subId : String) : String := managedTitle call.descriptor.id subId call.aliasName

/-- The entry of a sub-service, whose other fields `dump` renders. -/
def entryOf (subId : String) : Entry ν where
  toManifestEntry := Service.entryOf call.descriptor call.aliasName call.connectionId subId
  config := dump call.descriptor subId

/-- `_build_entry` -/
def build (subId : String) : Except WriteError (Entry ν) :=
  match resolveMcpServer call.descriptor subId with
  | none => .error (.unbuildable subId)
  | some _ => .ok (call.entryOf dump subId)

/-- The entry is one of the connection. -/
def Owns (current : Entry ν) : Prop :=
  ∃ managed ∈ current.managed, managed.connectionId = call.connectionId

instance (current : Entry ν) : Decidable (call.Owns current) :=
  inferInstanceAs (Decidable (∃ managed ∈ current.managed, _))

/-- A round of the loop; `existing` is what the document held before the loop. -/
def round (existing : List (Entry ν)) (done : List (Entry ν) × List String) (subId : String) :
    Except WriteError (List (Entry ν) × List String) := do
  let entry ← call.build dump subId
  match existing.reverse.find? fun current => current.title = entry.title with
  | some current =>
    if call.Owns current then return done
    else throw (.collision entry.title call.connectionId)
  | none => return (done.1 ++ [entry], done.2 ++ [entry.title])

end Addition

/-- `add_managed_entries`: the titles that it adds or its error, and the document after it. -/
def addManagedEntries (call : Addition) (document : Document ν ρ) :
    Except WriteError (List String) × Document ν ρ :=
  match call.enabledSubServices.foldlM (call.round dump document.entries)
      (document.entries, []) with
  | .error e => (.error e, document)
  | .ok (entries, added) => (.ok added, { document with mcp := some entries })

/-- `remove_managed_entries`: the titles that it removes, and the document after it. -/
def removeManagedEntries (connectionId : String) (subServices : Option (List String))
    (document : Document ν ρ) : List String × Document ν ρ :=
  ((document.entries.filter fun entry => entry.ownedBy connectionId subServices).map
      fun entry => entry.title,
    { document with
      mcp := some (document.entries.filter fun entry => ¬entry.ownedBy connectionId subServices) })

/-! ## One call -/

namespace Addition

variable (call : Addition) (entries : List (Entry ν))

/-- The document has an entry with the title of the sub-service. -/
def Known (subId : String) : Prop := ∃ entry ∈ entries, entry.title = call.title subId

instance (subId : String) : Decidable (call.Known entries subId) :=
  inferInstanceAs (Decidable (∃ entry ∈ entries, _))

/-- The sub-services that the loop appends an entry for. -/
def fresh : List String := call.enabledSubServices.filter fun subId => ¬call.Known entries subId

/-- The loop raises at none of the sub-services. -/
def Accepts (subId : String) : Prop :=
  (resolveMcpServer call.descriptor subId).isSome ∧
    ∀ current, entries.reverse.find? (fun current => current.title = call.title subId) =
      some current → call.Owns current

variable {dump call entries} {subId : String}

theorem find?_eq_none_iff : entries.reverse.find? (fun current => current.title =
    call.title subId) = none ↔ ¬call.Known entries subId := by
  simp [Known]

theorem round_eq_ok {done done' : List (Entry ν) × List String} :
    call.round dump entries done subId = .ok done' ↔ call.Accepts entries subId ∧
      done' = if call.Known entries subId then done
        else (done.1 ++ [call.entryOf dump subId], done.2 ++ [call.title subId]) := by
  unfold round build Accepts
  cases hserver : resolveMcpServer call.descriptor subId with
  | none => simp
  | some server =>
    have htitle : (call.entryOf dump subId).title = call.title subId := rfl
    cases hfind : entries.reverse.find? fun current => current.title = call.title subId with
    | none =>
      have hknown := find?_eq_none_iff.mp hfind
      simp [htitle, hfind, hknown, eq_comm]
    | some current =>
      have hknown : call.Known entries subId := by
        by_contra hnot
        rw [find?_eq_none_iff.mpr hnot] at hfind
        cases hfind
      by_cases howned : call.Owns current
      · simp [htitle, hfind, hknown, howned, eq_comm]
      · simp [htitle, hfind, howned, throw, throwThe, MonadExceptOf.throw]

theorem foldlM_eq_ok {subIds : List String} {done done' : List (Entry ν) × List String} :
    subIds.foldlM (call.round dump entries) done = .ok done' ↔
      (∀ subId ∈ subIds, call.Accepts entries subId) ∧
        done' = (done.1 ++ (subIds.filter fun subId => ¬call.Known entries subId).map
            (call.entryOf dump),
          done.2 ++ (subIds.filter fun subId => ¬call.Known entries subId).map call.title) := by
  induction subIds generalizing done with
  | nil => simp [eq_comm]
  | cons subId subIds ih =>
    rw [List.foldlM_cons, bind_eq_ok]
    simp only [round_eq_ok, ih, List.forall_mem_cons]
    constructor
    · rintro ⟨_, ⟨haccepts, rfl⟩, hrest, rfl⟩
      refine ⟨⟨haccepts, hrest⟩, ?_⟩
      by_cases hknown : call.Known entries subId <;> simp [hknown]
    · rintro ⟨⟨haccepts, hrest⟩, rfl⟩
      refine ⟨_, ⟨haccepts, rfl⟩, hrest, ?_⟩
      by_cases hknown : call.Known entries subId <;> simp [hknown]

end Addition

variable {dump} {call : Addition} {document document' : Document ν ρ} {added : List String}

variable (dump call document) in
/-- An add raises and leaves the document as it is, or appends an entry for each sub-service whose
title the document does not have. -/
theorem addManagedEntries_spec :
    (∃ e, addManagedEntries dump call document = (.error e, document)) ∨
    ((∀ subId ∈ call.enabledSubServices, call.Accepts document.entries subId) ∧
      addManagedEntries dump call document = (.ok ((call.fresh document.entries).map call.title),
        { document with mcp := some (document.entries ++
          (call.fresh document.entries).map (call.entryOf dump)) })) := by
  unfold addManagedEntries
  cases hloop : call.enabledSubServices.foldlM (call.round dump document.entries)
      (document.entries, []) with
  | error e => exact .inl ⟨e, rfl⟩
  | ok done =>
    obtain ⟨haccepts, rfl⟩ := Addition.foldlM_eq_ok.mp hloop
    exact .inr ⟨haccepts, rfl⟩

/-- An add that returns. -/
theorem addManagedEntries_eq_ok :
    addManagedEntries dump call document = (.ok added, document') ↔
      (∀ subId ∈ call.enabledSubServices, call.Accepts document.entries subId) ∧
      added = (call.fresh document.entries).map call.title ∧
      document' = { document with mcp := some (document.entries ++
        (call.fresh document.entries).map (call.entryOf dump)) } := by
  constructor
  · intro h
    obtain ⟨e, herror⟩ | ⟨haccepts, hok⟩ := addManagedEntries_spec dump call document
    · rw [herror] at h
      cases h
    · rw [hok] at h
      obtain ⟨hadded, rfl⟩ := Prod.mk.inj h
      exact ⟨haccepts, (Except.ok.inj hadded).symm, rfl⟩
  · rintro ⟨haccepts, rfl, rfl⟩
    unfold addManagedEntries
    rw [Addition.foldlM_eq_ok.mpr ⟨haccepts, rfl⟩]
    rfl

/-! ## The entries without their other fields -/

/-- What the connection service sees of the entries. -/
def refs (entries : List (Entry ν)) : List ManifestEntry := entries.map Entry.toManifestEntry

theorem find?_refs {entries : List (Entry ν)} {title : String} :
    ((refs entries).reverse.find? fun current => current.title = title) =
      (entries.reverse.find? fun current => current.title = title).map Entry.toManifestEntry := by
  rw [refs, ← List.map_reverse, List.find?_map]
  rfl

/-- A round on the references. -/
theorem refs_round (dump : ProviderDescriptor → String → ν) (call : Addition)
    (entries : List (Entry ν)) (done : List (Entry ν) × List String) (subId : String) :
    (do
      let entry ← buildEntry call.descriptor call.aliasName call.connectionId subId
      match (refs entries).reverse.find? fun current => current.title = entry.title with
      | some current =>
        guard (∃ managed ∈ current.managed, managed.connectionId = call.connectionId)
        return refs done.1
      | none => return refs done.1 ++ [entry]) =
      match call.round dump entries done subId with
      | .ok next => some (refs next.1)
      | .error _ => none := by
  unfold buildEntry Addition.round Addition.build
  cases hserver : resolveMcpServer call.descriptor subId with
  | none => rfl
  | some server =>
    simp only [Option.map_some, Option.bind_eq_bind, Option.bind_some, ok_bind, find?_refs]
    have htitle : managedTitle call.descriptor.id subId call.aliasName =
        (call.entryOf dump subId).title := rfl
    rw [htitle]
    cases hfind : entries.reverse.find? fun current =>
        current.title = (call.entryOf dump subId).title with
    | none =>
      show some (refs done.1 ++ _) = some (refs (done.1 ++ _))
      rw [refs, refs, List.map_append]
      rfl
    | some current =>
      by_cases howned : call.Owns current
      · have howned' : ∃ managed ∈ current.toManifestEntry.managed,
            managed.connectionId = call.connectionId := howned
        simp only [Option.map_some, if_pos howned, guard, if_pos howned']
        rfl
      · have howned' : ¬∃ managed ∈ current.toManifestEntry.managed,
            managed.connectionId = call.connectionId := howned
        simp only [Option.map_some, if_neg howned, guard, if_neg howned']
        rfl

/-- The writer does with the references what the service relies on. -/
theorem refs_add (call : Addition) (document : Document ν ρ) :
    Service.addManagedEntries call.descriptor call.enabledSubServices call.aliasName
        call.connectionId (refs document.entries) =
      match addManagedEntries dump call document with
      | (.ok _, document') => some (refs document'.entries)
      | (.error _, _) => none := by
  suffices ∀ (subIds : List String) (done : List (Entry ν) × List String),
      subIds.foldlM (fun added subId => do
        let entry ← buildEntry call.descriptor call.aliasName call.connectionId subId
        match (refs document.entries).reverse.find? fun current => current.title = entry.title with
        | some current =>
          guard (∃ managed ∈ current.managed, managed.connectionId = call.connectionId)
          return added
        | none => return added ++ [entry]) (refs done.1) =
        match subIds.foldlM (call.round dump document.entries) done with
        | .ok done' => some (refs done'.1)
        | .error _ => none by
    have hall := this call.enabledSubServices (document.entries, [])
    unfold addManagedEntries
    refine hall.trans ?_
    cases call.enabledSubServices.foldlM (call.round dump document.entries)
      (document.entries, []) <;> rfl
  intro subIds
  induction subIds with
  | nil => exact fun _ => rfl
  | cons subId subIds ih =>
    intro done
    rw [List.foldlM_cons, List.foldlM_cons, refs_round dump]
    cases call.round dump document.entries done subId with
    | error e => rfl
    | ok next => exact ih next

theorem refs_remove (connectionId : String) (subServices : Option (List String)) :
    refs (removeManagedEntries connectionId subServices document).2.entries =
      Service.removeManagedEntries connectionId subServices (refs document.entries) := by
  show (document.entries.filter _).map _ = (document.entries.map _).filter _
  rw [List.filter_map]
  rfl

/-! ## The titles -/

/-- No two entries have one title. -/
def Document.UniqueTitles (document : Document ν ρ) : Prop :=
  (document.entries.map fun entry => entry.title).Nodup

theorem Addition.title_injective (call : Addition) : Function.Injective call.title :=
  fun _ _ h => managedTitle_injective h

theorem entries_of_add (h : addManagedEntries dump call document = (.ok added, document')) :
    document'.entries = document.entries ++
      (call.fresh document.entries).map (call.entryOf dump) := by
  obtain ⟨-, -, rfl⟩ := addManagedEntries_eq_ok.mp h
  rfl

/-- The titles stay unique where no sub-service is appended twice. -/
theorem uniqueTitles_add_iff (hunique : document.UniqueTitles)
    (h : addManagedEntries dump call document = (.ok added, document')) :
    document'.UniqueTitles ↔ (call.fresh document.entries).Nodup := by
  have htitles : ((call.fresh document.entries).map (call.entryOf dump)).map
      (fun entry => entry.title) = (call.fresh document.entries).map call.title := by
    rw [List.map_map]
    rfl
  unfold Document.UniqueTitles at hunique ⊢
  rw [entries_of_add h, List.map_append, htitles, List.nodup_append]
  constructor
  · rintro ⟨-, hfresh, -⟩
    exact (List.nodup_map_iff call.title_injective).mp hfresh
  · intro hfresh
    refine ⟨hunique, (List.nodup_map_iff call.title_injective).mpr hfresh, ?_⟩
    rintro title hold title' hnew rfl
    obtain ⟨entry, hentry, rfl⟩ := List.mem_map.mp hold
    obtain ⟨subId, hsub, htitle⟩ := List.mem_map.mp hnew
    have hunknown := (List.mem_filter.mp hsub).2
    exact of_decide_eq_true hunknown ⟨entry, hentry, htitle.symm⟩

theorem uniqueTitles_remove (hunique : document.UniqueTitles) (connectionId : String)
    (subServices : Option (List String)) :
    (removeManagedEntries connectionId subServices document).2.UniqueTitles :=
  hunique.sublist (List.filter_sublist.map _)

/-! ## The inverse -/

/-- What is appended is the connection's. -/
theorem Addition.owns_entryOf (subId : String) : call.Owns (call.entryOf dump subId) :=
  ⟨_, rfl, rfl⟩

/-- A repeated add finds every title, and owned by the connection. -/
theorem add_of_add (h : addManagedEntries dump call document = (.ok added, document')) :
    addManagedEntries dump call document' = (.ok [], document') := by
  have hentries := entries_of_add h
  obtain ⟨haccepts, -, hdocument⟩ := addManagedEntries_eq_ok.mp h
  have hknown : ∀ subId ∈ call.enabledSubServices, call.Known document'.entries subId := by
    intro subId hmem
    rw [hentries]
    by_cases hold : call.Known document.entries subId
    · obtain ⟨entry, hentry, htitle⟩ := hold
      exact ⟨entry, List.mem_append_left _ hentry, htitle⟩
    · refine ⟨call.entryOf dump subId, List.mem_append_right _ (List.mem_map_of_mem ?_), rfl⟩
      exact List.mem_filter.mpr ⟨hmem, decide_eq_true hold⟩
  have hnone : call.fresh document'.entries = [] := by
    refine List.filter_eq_nil_iff.mpr fun subId hmem => ?_
    simpa using hknown subId hmem
  refine addManagedEntries_eq_ok.mpr ⟨fun subId hmem => ⟨(haccepts subId hmem).1,
    fun current hcurrent => ?_⟩, ?_, ?_⟩
  · rw [hentries, List.reverse_append, List.find?_append, Option.or_eq_some_iff] at hcurrent
    obtain hnew | ⟨-, hold⟩ := hcurrent
    · have hmem := List.mem_reverse.mp (List.mem_of_find?_eq_some hnew)
      obtain ⟨subId', -, rfl⟩ := List.mem_map.mp hmem
      exact Addition.owns_entryOf subId'
    · exact (haccepts subId hmem).2 current hold
  · rw [hnone, List.map_nil]
  · rw [hnone, List.map_nil, List.append_nil, hdocument]
    rfl

/-- The connection holds none of the sub-services. -/
def Addition.Unheld (call : Addition) (document : Document ν ρ) : Prop :=
  ∀ entry ∈ document.entries, ¬entry.ownedBy call.connectionId (some call.enabledSubServices)

/-- A removal undoes an add, but for an `mcp` list that there was not. -/
theorem remove_of_add_iff (h : addManagedEntries dump call document = (.ok added, document'))
    (hunheld : call.Unheld document) :
    (removeManagedEntries call.connectionId (some call.enabledSubServices) document').2 =
      document ↔ document.mcp.isSome = true := by
  have hkept : (document'.entries.filter fun entry =>
      ¬entry.ownedBy call.connectionId (some call.enabledSubServices)) = document.entries := by
    rw [entries_of_add h, List.filter_append, List.filter_eq_self.mpr, List.filter_eq_nil_iff.mpr,
      List.append_nil]
    · intro entry hentry
      obtain ⟨subId, hsub, rfl⟩ := List.mem_map.mp hentry
      have howned : (call.entryOf dump subId).ownedBy call.connectionId
          (some call.enabledSubServices) := by
        refine ⟨_, rfl, rfl, fun subSet hsubSet => ?_⟩
        obtain rfl := Option.some.inj hsubSet
        exact (List.mem_filter.mp hsub).1
      simp [howned]
    · exact fun entry hentry => decide_eq_true (hunheld entry hentry)
  obtain ⟨-, -, rfl⟩ := addManagedEntries_eq_ok.mp h
  unfold removeManagedEntries
  rw [hkept]
  obtain ⟨mcp, rest⟩ := document
  cases mcp with
  | none => simp
  | some entries => simp [Document.entries]

/-! ## The other entries -/

/-- A call of either function. -/
inductive Call where
  | add (call : Addition)
  | remove (connectionId : String) (subServices : Option (List String))

namespace Call

def connectionId : Call → String
  | .add call => call.connectionId
  | .remove connectionId _ => connectionId

variable (dump) in
/-- The document after a call. -/
def apply (document : Document ν ρ) : Call → Document ν ρ
  | .add call => (addManagedEntries dump call document).2
  | .remove connectionId subServices => (removeManagedEntries connectionId subServices document).2

/-- No sub-service is to be appended twice. -/
def Distinct (document : Document ν ρ) : Call → Prop
  | .add call => (call.fresh document.entries).Nodup
  | .remove _ _ => True

/-- A call leaves the entries that are not its connection's, in their order. -/
theorem others_apply (call : Call) : ((call.apply dump document).entries.filter fun entry =>
    ¬entry.ownedBy call.connectionId none) =
      document.entries.filter fun entry => ¬entry.ownedBy call.connectionId none := by
  cases call with
  | add call =>
    obtain ⟨e, herror⟩ | ⟨-, hok⟩ := addManagedEntries_spec dump call document
    · rw [apply, herror]
    · rw [apply, hok]
      have hnone : (((call.fresh document.entries).map (call.entryOf dump)).filter fun entry =>
          ¬entry.ownedBy call.connectionId none) = [] := by
        refine List.filter_eq_nil_iff.mpr fun entry hentry => ?_
        obtain ⟨subId, -, rfl⟩ := List.mem_map.mp hentry
        have howned : (call.entryOf dump subId).ownedBy call.connectionId none :=
          ⟨_, rfl, rfl, nofun⟩
        simpa using howned
      show (document.entries ++ _).filter _ = _
      rw [List.filter_append, connectionId, hnone, List.append_nil]
  | remove connectionId subServices =>
    show (document.entries.filter _).filter _ = _
    rw [List.filter_filter]
    refine List.filter_congr fun entry _ => ?_
    have hany : entry.ownedBy connectionId subServices → entry.ownedBy connectionId none :=
      fun ⟨managed, hmanaged, hid, _⟩ => ⟨managed, hmanaged, hid, nofun⟩
    by_cases howned : entry.ownedBy connectionId none
    · simp [Call.connectionId, howned]
    · have hnot : ¬entry.ownedBy connectionId subServices := fun h => howned (hany h)
      simp [Call.connectionId, howned, hnot]

theorem uniqueTitles_apply {call : Call} (hunique : document.UniqueTitles)
    (hdistinct : call.Distinct document) : (call.apply dump document).UniqueTitles := by
  cases call with
  | add call =>
    obtain ⟨e, herror⟩ | ⟨-, hok⟩ := addManagedEntries_spec dump call document
    · rw [apply, herror]
      exact hunique
    · rw [apply, hok]
      exact (uniqueTitles_add_iff hunique hok).mpr hdistinct
  | remove connectionId subServices => exact uniqueTitles_remove hunique connectionId subServices

end Call

/-! ## Every run -/

variable (dump) in
/-- Every sequence of calls on a document whose titles are unique. -/
def writes : System (Document ν ρ) Call where
  init document := document.UniqueTitles
  step document call document' := document' = call.apply dump document

end

/-- A provider of one sub-service, which `repeatedAdd` names twice. -/
def mailProvider : ProviderDescriptor where
  id := "mail"
  kind := .oauth
  subServices := [("read", { mcpServer := some "http" })]

def mailAdd (enabledSubServices : List String) : Addition where
  descriptor := mailProvider
  enabledSubServices := enabledSubServices
  aliasName := "work"
  connectionId := "c1"

end TaiSkeleton.Connectors.Writer
