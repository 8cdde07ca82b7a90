import Mathlib.Data.List.Basic
import TaiSkeleton.Lib.Run
import TaiSkeleton.Versioning.Store

/-!
# The tables of the versioned store

The rows of the two tables with their serial keys, as a backup reads and writes them, and what the
operations of the store make of them once they have committed.
-/

namespace TaiSkeleton.Versioning

open Lib

/-- A row of `versioned_documents`, with its key. -/
structure DocumentRow where
  id : ℕ
  kind : String
  name : String
  activeVersion : ℕ
  isActive : Bool
  createdAt : String
deriving DecidableEq

/-- A row of `versioned_document_versions`, with its keys. -/
structure VersionRecord (β : Type) where
  id : ℕ
  documentId : ℕ
  version : ℕ
  body : β
  tags : List String
  createdAt : String
deriving DecidableEq

/-- The two tables, and the last values of the sequences of their keys. -/
structure Tables (β : Type) where
  documents : List DocumentRow
  versions : List (VersionRecord β)
  documentSeq : ℕ
  versionSeq : ℕ
deriving DecidableEq

/-- An operation of the store that commits, at a time. -/
inductive TableOp (β : Type) where
  | create (kind name : String) (body : β) (tags : List String) (now : String)
  | saveVersion (kind name : String) (body : β) (tags : List String) (now : String)
  | rollback (kind name : String) (version : ℕ)
  | setVersionTags (kind name : String) (version : ℕ) (tags : List String)
  | softDelete (kind name : String)
  | delete (kind name : String)
  | rename (kind name newName : String)

variable {β : Type}

/-- The row is the active one under a kind and a name. -/
def DocumentRow.isNamed (kind name : String) (row : DocumentRow) : Bool :=
  row.isActive && row.kind == kind && row.name == name

namespace Tables

variable (t : Tables β)

/-- `… WHERE kind = %s AND name = %s AND is_active` -/
def active (kind name : String) : Option DocumentRow := t.documents.find? (·.isNamed kind name)

/-- The rows of the versions of a document. -/
def versionsOf (id : ℕ) : List (VersionRecord β) := t.versions.filter (·.documentId == id)

/-- An update of one row of `versioned_documents`. -/
def updateDocument (id : ℕ) (f : DocumentRow → DocumentRow) : Tables β :=
  { t with documents := t.documents.map fun row => if row.id = id then f row else row }

/-- The insert of a version's row. -/
def insertVersion (documentId version : ℕ) (body : β) (tags : List String) (now : String) :
    Tables β :=
  { t with
    versions := ⟨t.versionSeq + 1, documentId, version, body, tags, now⟩ :: t.versions
    versionSeq := t.versionSeq + 1 }

/-- What an operation leaves; `none` where it raises. -/
def apply : TableOp β → Option (Tables β)
  | .create kind name body tags now =>
    match t.active kind name with
    | some _ => none
    | none =>
      let id := t.documentSeq + 1
      some ({ t with
        documents := ⟨id, kind, name, 1, true, now⟩ :: t.documents
        documentSeq := id }.insertVersion id 1 body tags now)
  | .saveVersion kind name body tags now =>
    match t.active kind name with
    | none => none
    | some row =>
      match ((t.versionsOf row.id).map VersionRecord.version).max? with
      | none => none
      | some highest => some ((t.insertVersion row.id (highest + 1) body tags now).updateDocument
          row.id fun row => { row with activeVersion := highest + 1 })
  | .rollback kind name version =>
    match t.active kind name with
    | none => none
    | some row =>
      if (t.versionsOf row.id).any (·.version == version) then
        some (t.updateDocument row.id fun row => { row with activeVersion := version })
      else none
  | .setVersionTags kind name version tags =>
    match t.active kind name with
    | none => none
    | some row =>
      if kind ≠ roleAudit ∧ (t.versionsOf row.id).any (·.version == version) then
        some { t with versions := t.versions.map fun record =>
          if record.documentId = row.id ∧ record.version = version then { record with tags }
          else record }
      else none
  | .softDelete kind name =>
    match t.active kind name with
    | none => none
    | some row =>
      if kind ≠ roleAudit then
        some (t.updateDocument row.id fun row => { row with isActive := false })
      else none
  | .delete kind name =>
    match t.active kind name with
    | none => none
    | some row =>
      if kind ≠ roleAudit then
        some { t with
          documents := t.documents.filter (·.id ≠ row.id)
          versions := t.versions.filter (·.documentId ≠ row.id) }
      else none
  | .rename kind name newName =>
    match t.active kind name with
    | none => none
    | some row =>
      if kind ≠ roleAudit ∧ (name = newName ∨ t.active kind newName = none) then
        some (t.updateDocument row.id fun row => { row with name := newName })
      else none

/-- What the constraints and the operations keep. -/
structure Valid : Prop where
  documentIds : ∀ d ∈ t.documents, ∀ e ∈ t.documents, d.id = e.id → d = e
  versionIds : ∀ v ∈ t.versions, ∀ w ∈ t.versions, v.id = w.id → v = w
  documentVersions : ∀ v ∈ t.versions, ∀ w ∈ t.versions, v.documentId = w.documentId →
    v.version = w.version → v = w
  references : ∀ v ∈ t.versions, ∃ d ∈ t.documents, d.id = v.documentId
  activeNames : ∀ d ∈ t.documents, ∀ e ∈ t.documents, d.isActive = true → e.isActive = true →
    d.kind = e.kind → d.name = e.name → d = e
  activeVersions : ∀ d ∈ t.documents, ∃ v ∈ t.versions, v.documentId = d.id ∧
    v.version = d.activeVersion
  documentSeq : ∀ d ∈ t.documents, d.id ≤ t.documentSeq
  versionSeq : ∀ v ∈ t.versions, v.id ≤ t.versionSeq

end Tables

/-- The runs of the store's operations, from empty tables. -/
def tableOperations (β : Type) : System (Tables β) (TableOp β) where
  init t := t = ⟨[], [], 0, 0⟩
  step t op t' := t.apply op = some t'

namespace Tables.Valid

variable {t : Tables β}

theorem empty : (⟨[], [], 0, 0⟩ : Tables β).Valid where
  documentIds _ h := by cases h
  versionIds _ h := by cases h
  documentVersions _ h := by cases h
  references _ h := by cases h
  activeNames _ h := by cases h
  activeVersions _ h := by cases h
  documentSeq _ h := by cases h
  versionSeq _ h := by cases h

theorem mem_active {kind name : String} {row : DocumentRow} (h : t.active kind name = some row) :
    row ∈ t.documents ∧ row.isActive = true ∧ row.kind = kind ∧ row.name = name := by
  have hnamed := List.find?_some h
  simp only [DocumentRow.isNamed, Bool.and_eq_true, beq_iff_eq] at hnamed
  exact ⟨List.mem_of_find?_eq_some h, hnamed.1.1, hnamed.1.2, hnamed.2⟩

theorem not_named {kind name : String} (h : t.active kind name = none) {d : DocumentRow}
    (hd : d ∈ t.documents) (hactive : d.isActive = true) (hkind : d.kind = kind) :
    d.name ≠ name := by
  intro hname
  have hnot := List.find?_eq_none.mp h d hd
  simp [DocumentRow.isNamed, hactive, hkind, hname] at hnot

theorem mem_versionsOf {id : ℕ} {v : VersionRecord β} :
    v ∈ t.versionsOf id ↔ v ∈ t.versions ∧ v.documentId = id := by
  simp [versionsOf]

/-- A version with a new number for a document. -/
theorem insertVersion (h : t.Valid) {documentId version : ℕ} {body : β} {tags : List String}
    {now : String} (hdocument : ∃ d ∈ t.documents, d.id = documentId)
    (hnew : ∀ v ∈ t.versions, v.documentId = documentId → v.version ≠ version) :
    (t.insertVersion documentId version body tags now).Valid where
  documentIds := h.documentIds
  versionIds v hv w hw hid := by
    obtain rfl | hv := List.mem_cons.mp hv <;> obtain rfl | hw := List.mem_cons.mp hw
    · rfl
    · have := h.versionSeq w hw
      simp only at hid
      omega
    · have := h.versionSeq v hv
      simp only at hid
      omega
    · exact h.versionIds v hv w hw hid
  documentVersions v hv w hw hdocument hversion := by
    obtain rfl | hv := List.mem_cons.mp hv <;> obtain rfl | hw := List.mem_cons.mp hw
    · rfl
    · exact absurd hversion.symm (hnew w hw hdocument.symm)
    · exact absurd hversion (hnew v hv hdocument)
    · exact h.documentVersions v hv w hw hdocument hversion
  references v hv := by
    obtain rfl | hv := List.mem_cons.mp hv
    · exact hdocument
    · exact h.references v hv
  activeNames := h.activeNames
  activeVersions d hd := by
    obtain ⟨v, hv, hversion⟩ := h.activeVersions d hd
    exact ⟨v, List.mem_cons_of_mem _ hv, hversion⟩
  documentSeq := h.documentSeq
  versionSeq v hv := by
    obtain rfl | hv := List.mem_cons.mp hv
    · exact le_rfl
    · exact (h.versionSeq v hv).trans (Nat.le_succ _)

/-- An update of one document that keeps its key, leaves the active names unique and points to a
version of it. -/
theorem updateDocument (h : t.Valid) {row : DocumentRow} (hrow : row ∈ t.documents)
    {f : DocumentRow → DocumentRow} (hid : (f row).id = row.id)
    (hnames : (f row).isActive = true → ∀ e ∈ t.documents, e.isActive = true →
      e.kind = (f row).kind → e.name = (f row).name → e = row)
    (hversion : ∃ v ∈ t.versions, v.documentId = row.id ∧ v.version = (f row).activeVersion) :
    (t.updateDocument row.id f).Valid := by
  have hmem : ∀ {d}, d ∈ (t.updateDocument row.id f).documents →
      d = f row ∨ (d ∈ t.documents ∧ d.id ≠ row.id) := by
    intro d hd
    obtain ⟨e, he, rfl⟩ := List.mem_map.mp hd
    split_ifs with heq
    · exact .inl (congrArg f (h.documentIds e he row hrow heq))
    · exact .inr ⟨he, heq⟩
  refine ⟨fun d hd e he heq => ?_, h.versionIds, h.documentVersions, fun v hv => ?_,
    fun d hd e he hactive hactive' hkind hname => ?_, fun d hd => ?_, fun d hd => ?_, h.versionSeq⟩
  · obtain rfl | ⟨hd, hne⟩ := hmem hd <;> obtain rfl | ⟨he, hne'⟩ := hmem he
    · rfl
    · exact absurd (heq.symm.trans hid) hne'
    · exact absurd (heq.trans hid) hne
    · exact h.documentIds d hd e he heq
  · obtain ⟨d, hd, hreference⟩ := h.references v hv
    refine ⟨_, List.mem_map_of_mem hd, ?_⟩
    split_ifs with heq
    · rw [h.documentIds d hd row hrow heq, hid, ← hreference, heq]
    · exact hreference
  · obtain rfl | ⟨hd, hne⟩ := hmem hd <;> obtain rfl | ⟨he, hne'⟩ := hmem he
    · rfl
    · exact absurd (congrArg DocumentRow.id (hnames hactive e he hactive' hkind.symm hname.symm))
        hne'
    · exact absurd (congrArg DocumentRow.id (hnames hactive' d hd hactive hkind hname)) hne
    · exact h.activeNames d hd e he hactive hactive' hkind hname
  · obtain rfl | ⟨hd, hne⟩ := hmem hd
    · rw [hid]
      exact hversion
    · exact h.activeVersions d hd
  · obtain rfl | ⟨hd, hne⟩ := hmem hd
    · rw [hid]
      exact h.documentSeq row hrow
    · exact h.documentSeq d hd

/-- The insert of a document with its first version. -/
theorem create (h : t.Valid) {kind name : String} {body : β} {tags : List String} {now : String}
    (hfree : t.active kind name = none) :
    ({ t with
      documents := ⟨t.documentSeq + 1, kind, name, 1, true, now⟩ :: t.documents
      documentSeq := t.documentSeq + 1 }.insertVersion (t.documentSeq + 1) 1 body tags
        now).Valid := by
  have hids : ∀ d ∈ t.documents, d.id ≠ t.documentSeq + 1 := by
    intro d hd heq
    have := h.documentSeq d hd
    omega
  have hdocuments : ∀ v ∈ t.versions, v.documentId ≠ t.documentSeq + 1 := by
    intro v hv heq
    obtain ⟨d, hd, hreference⟩ := h.references v hv
    exact hids d hd (hreference.trans heq)
  have hversions : ∀ v ∈ t.versions, v.id ≠ t.versionSeq + 1 := by
    intro v hv heq
    have := h.versionSeq v hv
    omega
  refine ⟨fun d hd e he heq => ?_, fun v hv w hw heq => ?_, fun v hv w hw heq heq' => ?_,
    fun v hv => ?_, fun d hd e he hactive hactive' hkind hname => ?_, fun d hd => ?_,
    fun d hd => ?_, fun v hv => ?_⟩
  · obtain rfl | hd := List.mem_cons.mp hd <;> obtain rfl | he := List.mem_cons.mp he
    · rfl
    · exact absurd heq.symm (hids e he)
    · exact absurd heq (hids d hd)
    · exact h.documentIds d hd e he heq
  · obtain rfl | hv := List.mem_cons.mp hv <;> obtain rfl | hw := List.mem_cons.mp hw
    · rfl
    · exact absurd heq.symm (hversions w hw)
    · exact absurd heq (hversions v hv)
    · exact h.versionIds v hv w hw heq
  · obtain rfl | hv := List.mem_cons.mp hv <;> obtain rfl | hw := List.mem_cons.mp hw
    · rfl
    · exact absurd heq.symm (hdocuments w hw)
    · exact absurd heq (hdocuments v hv)
    · exact h.documentVersions v hv w hw heq heq'
  · obtain rfl | hv := List.mem_cons.mp hv
    · exact ⟨_, List.mem_cons_self, rfl⟩
    · obtain ⟨d, hd, hreference⟩ := h.references v hv
      exact ⟨d, List.mem_cons_of_mem _ hd, hreference⟩
  · obtain rfl | hd := List.mem_cons.mp hd <;> obtain rfl | he := List.mem_cons.mp he
    · rfl
    · exact absurd hname.symm (not_named hfree he hactive' hkind.symm)
    · exact absurd hname (not_named hfree hd hactive hkind)
    · exact h.activeNames d hd e he hactive hactive' hkind hname
  · obtain rfl | hd := List.mem_cons.mp hd
    · exact ⟨_, List.mem_cons_self, rfl, rfl⟩
    · obtain ⟨v, hv, hversion⟩ := h.activeVersions d hd
      exact ⟨v, List.mem_cons_of_mem _ hv, hversion⟩
  · obtain rfl | hd := List.mem_cons.mp hd
    · exact le_rfl
    · exact (h.documentSeq d hd).trans (Nat.le_succ _)
  · obtain rfl | hv := List.mem_cons.mp hv
    · exact le_rfl
    · exact (h.versionSeq v hv).trans (Nat.le_succ _)

/-- A change of the versions that keeps their keys. -/
theorem mapVersions (h : t.Valid) {f : VersionRecord β → VersionRecord β}
    (hkeys : ∀ v, (f v).id = v.id ∧ (f v).documentId = v.documentId ∧ (f v).version = v.version) :
    Valid { t with versions := t.versions.map f } := by
  refine ⟨h.documentIds, fun v hv w hw heq => ?_, fun v hv w hw heq heq' => ?_, fun v hv => ?_,
    h.activeNames, fun d hd => ?_, h.documentSeq, fun v hv => ?_⟩
  · obtain ⟨v, hmem, rfl⟩ := List.mem_map.mp hv
    obtain ⟨w, hmem', rfl⟩ := List.mem_map.mp hw
    rw [(hkeys v).1, (hkeys w).1] at heq
    rw [h.versionIds v hmem w hmem' heq]
  · obtain ⟨v, hmem, rfl⟩ := List.mem_map.mp hv
    obtain ⟨w, hmem', rfl⟩ := List.mem_map.mp hw
    rw [(hkeys v).2.1, (hkeys w).2.1] at heq
    rw [(hkeys v).2.2, (hkeys w).2.2] at heq'
    rw [h.documentVersions v hmem w hmem' heq heq']
  · obtain ⟨v, hmem, rfl⟩ := List.mem_map.mp hv
    rw [(hkeys v).2.1]
    exact h.references v hmem
  · obtain ⟨v, hv, hdocument, hversion⟩ := h.activeVersions d hd
    exact ⟨_, List.mem_map_of_mem hv, (hkeys v).2.1.trans hdocument,
      (hkeys v).2.2.trans hversion⟩
  · obtain ⟨v, hmem, rfl⟩ := List.mem_map.mp hv
    rw [(hkeys v).1]
    exact h.versionSeq v hmem

/-- The delete of a document with its versions. -/
theorem delete (h : t.Valid) {id : ℕ} :
    Valid { t with
      documents := t.documents.filter (·.id ≠ id)
      versions := t.versions.filter (·.documentId ≠ id) } := by
  have hdocument : ∀ {d : DocumentRow}, d ∈ t.documents.filter (·.id ≠ id) → d ∈ t.documents :=
    fun hd => (List.mem_filter.mp hd).1
  have hversion : ∀ {v : VersionRecord β}, v ∈ t.versions.filter (·.documentId ≠ id) →
      v ∈ t.versions := fun hv => (List.mem_filter.mp hv).1
  refine ⟨fun d hd e he => h.documentIds d (hdocument hd) e (hdocument he),
    fun v hv w hw => h.versionIds v (hversion hv) w (hversion hw),
    fun v hv w hw => h.documentVersions v (hversion hv) w (hversion hw), fun v hv => ?_,
    fun d hd e he => h.activeNames d (hdocument hd) e (hdocument he), fun d hd => ?_,
    fun d hd => h.documentSeq d (hdocument hd), fun v hv => h.versionSeq v (hversion hv)⟩
  · obtain ⟨hv, hne⟩ := List.mem_filter.mp hv
    obtain ⟨d, hd, hreference⟩ := h.references v hv
    exact ⟨d, List.mem_filter.mpr ⟨hd, by rwa [hreference]⟩, hreference⟩
  · obtain ⟨hd, hne⟩ := List.mem_filter.mp hd
    obtain ⟨v, hv, hreference, hactive⟩ := h.activeVersions d hd
    exact ⟨v, List.mem_filter.mpr ⟨hv, by rwa [hreference]⟩, hreference, hactive⟩

/-- A pointer of a document to one of its versions. -/
theorem point (h : t.Valid) {row : DocumentRow} (hrow : row ∈ t.documents) {version : ℕ}
    (hversion : ∃ v ∈ t.versions, v.documentId = row.id ∧ v.version = version) :
    (t.updateDocument row.id fun row => { row with activeVersion := version }).Valid :=
  h.updateDocument hrow rfl
    (fun hactive e he hactive' hkind hname => h.activeNames e he row hrow hactive' hactive hkind
      hname) hversion

/-- What an operation leaves is valid. -/
theorem apply (h : t.Valid) {op : TableOp β} {t' : Tables β} (hop : t.apply op = some t') :
    t'.Valid := by
  cases op with
  | create kind name body tags now =>
    simp only [Tables.apply] at hop
    split at hop
    · cases hop
    · next hfree => exact Option.some.inj hop ▸ h.create hfree
  | saveVersion kind name body tags now =>
    simp only [Tables.apply] at hop
    split at hop
    · cases hop
    · next row hactive =>
      split at hop
      · cases hop
      · next highest hmax =>
        obtain rfl := Option.some.inj hop
        obtain ⟨hrow, -⟩ := mem_active hactive
        have hnew : ∀ v ∈ t.versions, v.documentId = row.id → v.version ≠ highest + 1 := by
          intro v hv hdocument heq
          have hmem : v.version ∈ (t.versionsOf row.id).map VersionRecord.version :=
            List.mem_map_of_mem (mem_versionsOf.mpr ⟨hv, hdocument⟩)
          have hle := (List.max?_eq_some_iff.mp hmax).2 _ hmem
          omega
        exact (h.insertVersion ⟨row, hrow, rfl⟩ hnew).point hrow ⟨_, List.mem_cons_self, rfl, rfl⟩
  | rollback kind name version =>
    simp only [Tables.apply] at hop
    split at hop
    · cases hop
    · next row hactive =>
      split_ifs at hop with hversion
      obtain ⟨v, hv, hnumber⟩ := List.any_eq_true.mp hversion
      obtain ⟨hv, hdocument⟩ := mem_versionsOf.mp hv
      exact Option.some.inj hop ▸
        h.point (mem_active hactive).1 ⟨v, hv, hdocument, beq_iff_eq.mp hnumber⟩
  | setVersionTags kind name version tags =>
    simp only [Tables.apply] at hop
    split at hop
    · cases hop
    · split_ifs at hop
      refine Option.some.inj hop ▸ h.mapVersions fun v => ?_
      split_ifs <;> exact ⟨rfl, rfl, rfl⟩
  | softDelete kind name =>
    simp only [Tables.apply] at hop
    split at hop
    · cases hop
    · next row hactive =>
      split_ifs at hop
      obtain ⟨hrow, -⟩ := mem_active hactive
      exact Option.some.inj hop ▸
        h.updateDocument hrow rfl (fun hactive => by cases hactive) (h.activeVersions row hrow)
  | delete kind name =>
    simp only [Tables.apply] at hop
    split at hop
    · cases hop
    · split_ifs at hop
      exact Option.some.inj hop ▸ h.delete
  | rename kind name newName =>
    simp only [Tables.apply] at hop
    split at hop
    · cases hop
    · next row hactive =>
      split_ifs at hop with hfree
      obtain ⟨hrow, hrowActive, hkind, hname⟩ := mem_active hactive
      refine Option.some.inj hop ▸ h.updateDocument hrow rfl
        (fun _ e he hactive' hkind' hname' => ?_) (h.activeVersions row hrow)
      obtain rfl | hfree := hfree.2
      · exact h.activeNames e he row hrow hactive' hrowActive hkind' (hname'.trans hname.symm)
      · exact absurd hname' (not_named hfree he hactive' (hkind'.trans hkind))

/-- The tables that the operations lead to are valid. -/
theorem of_reachable (h : (tableOperations β).Reachable t) : t.Valid := by
  refine h.invariant ?_ fun t op t' hvalid hop => hvalid.apply hop
  rintro t rfl
  exact empty

end Tables.Valid

end TaiSkeleton.Versioning
