import Mathlib.Data.List.Sort
import TaiSkeleton.Lib.Except
import TaiSkeleton.Versioning.Tables

/-!
# The backup of the versioned store

The export copies the rows of both tables with their keys, and the import writes each row under its
key, one statement at a time in one transaction: over the row that has the key, if there is one.
What a restore means is said of whole documents; it is had exactly where every document of the
payload whose key is taken is the document that has it, and no version of another takes a key.
-/

namespace TaiSkeleton.Versioning

open Lib

/-- The payload of the section. -/
structure Payload (β : Type) where
  documents : List DocumentRow
  versions : List (VersionRecord β)
deriving DecidableEq

/-- Why the database refuses a statement. -/
inductive DbError where
  | uniqueViolation (constraint : String)
  | foreignKeyViolation
  /-- A trigger of the audit trail raises. -/
  | auditImmutable
deriving DecidableEq

/-- A statement of the import. -/
inductive ImportStatement (β : Type) where
  | upsertDocument (row : DocumentRow)
  | upsertVersion (row : VersionRecord β)
  /-- `setval` of the sequence of `versioned_documents` to `MAX(id)`. -/
  | setvalDocuments
  | setvalVersions

/-- `_SectionReport` -/
structure SectionReport where
  created : ℕ := 0
  updated : ℕ := 0
  skipped : ℕ := 0
  errors : List String := []
deriving DecidableEq

variable {β : Type}

/-- `export_versioned_documents` -/
def exportVersionedDocuments (t : Tables β) : Payload β where
  documents := t.documents.insertionSort fun d e => d.id ≤ e.id
  versions := t.versions.insertionSort fun v w => v.id ≤ w.id

/-- `ON CONFLICT (id) DO UPDATE` -/
def upsert {ρ : Type} (key : ρ → ℕ) (rows : List ρ) (row : ρ) : List ρ :=
  row :: rows.filter (key · ≠ key row)

/-- What refuses the upsert of a document: the trigger of the audit trail, or the index of the
active names. -/
def documentFault (rows : List DocumentRow) (row : DocumentRow) : Option DbError :=
  if rows.any fun old => old.id = row.id ∧ old.kind = roleAudit ∧
      ¬(row.kind = old.kind ∧ row.name = old.name ∧ row.isActive = old.isActive ∧
        row.createdAt = old.createdAt) then
    some .auditImmutable
  else if rows.any fun other => other.id ≠ row.id ∧ row.isActive ∧ other.isActive ∧
      other.kind = row.kind ∧ other.name = row.name then
    some (.uniqueViolation "versioned_documents_active_name_unique")
  else none

/-- What refuses the upsert of a version: the trigger of the audit trail, the constraint on the
numbers of a document, or the reference to it. -/
def versionFault (documents : List DocumentRow) (rows : List (VersionRecord β))
    (row : VersionRecord β) : Option DbError :=
  if rows.any fun old => old.id = row.id ∧
      documents.any fun d => d.id = old.documentId ∧ d.kind = roleAudit then
    some .auditImmutable
  else if rows.any fun other => other.id ≠ row.id ∧ other.documentId = row.documentId ∧
      other.version = row.version then
    some (.uniqueViolation "versioned_document_versions_doc_version_unique")
  else if documents.any (·.id = row.documentId) then none
  else some .foreignKeyViolation

namespace Payload

variable (payload : Payload β)

/-- The statements of an import, in their order. -/
def statements : List (ImportStatement β) :=
  payload.documents.map .upsertDocument ++ payload.versions.map .upsertVersion ++
    (if payload.documents = [] then [] else [.setvalDocuments]) ++
    (if payload.versions = [] then [] else [.setvalVersions])

end Payload

namespace Tables

variable (t : Tables β)

/-- The upsert of a document's row. -/
def putDocument (row : DocumentRow) : Tables β :=
  { t with documents := upsert DocumentRow.id t.documents row }

/-- The upsert of a version's row. -/
def putVersion (row : VersionRecord β) : Tables β :=
  { t with versions := upsert VersionRecord.id t.versions row }

def execute : ImportStatement β → Except DbError (Tables β)
  | .upsertDocument row => checked (fun t => documentFault t.documents) putDocument t row
  | .upsertVersion row => checked (fun t => versionFault t.documents t.versions) putVersion t row
  | .setvalDocuments =>
    .ok { t with documentSeq := ((t.documents.map DocumentRow.id).max?).getD t.documentSeq }
  | .setvalVersions =>
    .ok { t with versionSeq := ((t.versions.map VersionRecord.id).max?).getD t.versionSeq }

/-- The counts of an import: a document counts as updated whose key existed before. -/
def importReport (payload : Payload β) : SectionReport where
  created := payload.documents.countP fun d => !t.documents.any (·.id == d.id)
  updated := payload.documents.countP fun d => t.documents.any (·.id == d.id)

/-- `import_versioned_documents`: the report or the error, and the tables that the transaction
leaves. -/
def importVersionedDocuments (payload : Payload β) : Except DbError SectionReport × Tables β :=
  match payload.statements.foldlM execute t with
  | .error e => (.error e, t)
  | .ok t' => (.ok (t.importReport payload), t')

end Tables

/-! ## What a restore is -/

/-- The row was the payload's document already: the payload's versions of it are there, and any
other is later. -/
structure SameDocument (old : Tables β) (payload : Payload β) (row d : DocumentRow) : Prop where
  id : row.id = d.id
  kind : row.kind = d.kind
  createdAt : row.createdAt = d.createdAt
  versions : ∀ v ∈ payload.versions, v.documentId = d.id → ∃ w ∈ old.versions, w.id = v.id ∧
    w.documentId = d.id ∧ w.version = v.version ∧ w.body = v.body
  later : ∀ w ∈ old.versions, w.documentId = d.id →
    (∃ v ∈ payload.versions, v.documentId = d.id ∧ v.version = w.version) ∨
      ∀ v ∈ payload.versions, v.documentId = d.id → v.version < w.version

/-- The payload's document was there before. -/
def WasThere (old : Tables β) (payload : Payload β) (d : DocumentRow) : Prop :=
  ∃ row ∈ old.documents, SameDocument old payload row d

/-- Every document of the payload has the payload's row and versions, and those appended later
where it was there before; every other keeps its rows; and the tables are what the operations count
on. -/
structure Restored (old : Tables β) (payload : Payload β) (new : Tables β) : Prop where
  documents : ∀ d ∈ payload.documents, d ∈ new.documents
  versions : ∀ d ∈ payload.documents, ∀ w : VersionRecord β, w.documentId = d.id →
    (w ∈ new.versions ↔ w ∈ payload.versions ∨ (w ∈ old.versions ∧ WasThere old payload d ∧
      ∀ v ∈ payload.versions, v.documentId = d.id → v.version ≠ w.version))
  others : ∀ row ∈ old.documents, (¬∃ d ∈ payload.documents, SameDocument old payload row d) →
    row ∈ new.documents ∧
      ∀ w : VersionRecord β, w.documentId = row.id → (w ∈ new.versions ↔ w ∈ old.versions)
  valid : new.Valid

/-- The import raises and leaves the tables as they were, or restores the payload. -/
def RestoresOrRaises (old : Tables β) (payload : Payload β) : Prop :=
  match old.importVersionedDocuments payload with
  | (.error _, t) => t = old
  | (.ok _, new) => Restored old payload new

/-- The database refuses a row of the payload, by the rows that are there when it is written. -/
def Refused (old : Tables β) (payload : Payload β) : Prop :=
  SomeRefused documentFault (upsert DocumentRow.id) old.documents payload.documents ∨
    SomeRefused (versionFault (payload.documents.foldl (upsert DocumentRow.id) old.documents))
      (upsert VersionRecord.id) old.versions payload.versions

/-- Every document of the payload whose key is taken is the document that has it, and no version
takes the key of a version of another document. -/
structure Unmixed (old : Tables β) (payload : Payload β) : Prop where
  documents : ∀ d ∈ payload.documents, ∀ row ∈ old.documents, row.id = d.id →
    SameDocument old payload row d
  versions : ∀ v ∈ payload.versions, ∀ w ∈ old.versions, w.id = v.id →
    w.documentId = v.documentId

/-! ## The tables after an import -/

section Upsert

variable {ρ : Type} {key : ρ → ℕ} {rows l : List ρ} {row : ρ}

theorem mem_upsert {new : ρ} : row ∈ upsert key rows new ↔
    row = new ∨ (row ∈ rows ∧ key row ≠ key new) := by
  simp [upsert]

/-- A row of the payload, or one whose key none of them has. -/
theorem mem_foldl_upsert (hkeys : ∀ r ∈ l, ∀ r' ∈ l, key r = key r' → r = r') :
    row ∈ l.foldl (upsert key) rows ↔ row ∈ l ∨ (row ∈ rows ∧ ∀ r ∈ l, key r ≠ key row) := by
  induction l generalizing rows with
  | nil => simp
  | cons a l ih =>
    rw [List.foldl_cons, ih fun r hr r' hr' => hkeys r (List.mem_cons_of_mem _ hr) r'
      (List.mem_cons_of_mem _ hr'), mem_upsert, List.mem_cons, List.forall_mem_cons]
    constructor
    · rintro (hmem | ⟨rfl | ⟨hmem, hne⟩, hall⟩)
      · exact .inl (.inr hmem)
      · exact .inl (.inl rfl)
      · exact .inr ⟨hmem, hne.symm, hall⟩
    · rintro ((rfl | hmem) | ⟨hmem, hne, hall⟩)
      · by_cases hlater : row ∈ l
        · exact .inl hlater
        · refine .inr ⟨.inl rfl, fun r hr heq => hlater ?_⟩
          exact hkeys r (List.mem_cons_of_mem _ hr) row List.mem_cons_self heq ▸ hr
      · exact .inl hmem
      · exact .inr ⟨.inr ⟨hmem, hne.symm⟩, hall⟩

theorem upsert_ids (h : ∀ r ∈ rows, ∀ r' ∈ rows, key r = key r' → r = r') {new : ρ} :
    ∀ r ∈ upsert key rows new, ∀ r' ∈ upsert key rows new, key r = key r' → r = r' := by
  intro r hr r' hr' heq
  obtain rfl | ⟨hr, hne⟩ := mem_upsert.mp hr <;> obtain rfl | ⟨hr', hne'⟩ := mem_upsert.mp hr'
  · rfl
  · exact absurd heq.symm hne'
  · exact absurd heq hne
  · exact h r hr r' hr' heq

/-- What every upsert that is not refused keeps, all of them keep. -/
theorem foldl_invariant {σ α ε : Type} {fault : σ → α → Option ε} {update : σ → α → σ}
    {p : σ → Prop} (keeps : ∀ s a, p s → fault s a = none → p (update s a)) {l : List α} {s : σ}
    (hnot : ¬SomeRefused fault update s l) (hs : p s) : p (l.foldl update s) := by
  induction l generalizing s with
  | nil => exact hs
  | cons a l ih =>
    rw [someRefused_cons, not_or] at hnot
    exact ih hnot.2 (keeps s a hs (by simpa using hnot.1))

end Upsert

namespace Tables

/-- The tables after the upserts and the resets of the sequences. -/
def imported (old : Tables β) (payload : Payload β) : Tables β :=
  let documents := payload.documents.foldl (upsert DocumentRow.id) old.documents
  let versions := payload.versions.foldl (upsert VersionRecord.id) old.versions
  { documents := documents
    versions := versions
    documentSeq := if payload.documents = [] then old.documentSeq
      else ((documents.map DocumentRow.id).max?).getD old.documentSeq
    versionSeq := if payload.versions = [] then old.versionSeq
      else ((versions.map VersionRecord.id).max?).getD old.versionSeq }

theorem foldl_putDocument (l : List DocumentRow) (t : Tables β) :
    l.foldl putDocument t =
      { t with documents := l.foldl (upsert DocumentRow.id) t.documents } := by
  induction l generalizing t with
  | nil => rfl
  | cons row l ih => exact ih _

theorem foldl_putVersion (l : List (VersionRecord β)) (t : Tables β) :
    l.foldl putVersion t = { t with versions := l.foldl (upsert VersionRecord.id) t.versions } := by
  induction l generalizing t with
  | nil => rfl
  | cons row l ih => exact ih _

theorem someRefused_putDocument {t : Tables β} {l : List DocumentRow} :
    SomeRefused (fun t : Tables β => documentFault t.documents) putDocument t l ↔
      SomeRefused documentFault (upsert DocumentRow.id) t.documents l := by
  simp only [SomeRefused, foldl_putDocument]

theorem someRefused_putVersion {t : Tables β} {l : List (VersionRecord β)} :
    SomeRefused (fun t : Tables β => versionFault t.documents t.versions) putVersion t l ↔
      SomeRefused (versionFault t.documents) (upsert VersionRecord.id) t.versions l := by
  simp only [SomeRefused, foldl_putVersion]

variable {old : Tables β} {payload : Payload β}

theorem foldlM_statements : payload.statements.foldlM execute old =
    (payload.documents.foldlM (checked (fun t => documentFault t.documents) putDocument) old >>=
      fun t => payload.versions.foldlM
        (checked (fun t => versionFault t.documents t.versions) putVersion) t >>= fun t =>
          ((if payload.documents = [] then [] else [ImportStatement.setvalDocuments]) ++
            (if payload.versions = [] then [] else [ImportStatement.setvalVersions])).foldlM
              execute t) := by
  unfold Payload.statements
  rw [List.append_assoc]
  simp only [List.foldlM_append, List.foldlM_map, bind_assoc]
  rfl

/-- A refused import leaves the tables as they were. -/
theorem import_of_refused (h : Refused old payload) :
    ∃ e, old.importVersionedDocuments payload = (.error e, old) := by
  suffices ∃ e, payload.statements.foldlM execute old = .error e by
    obtain ⟨e, he⟩ := this
    exact ⟨e, by rw [importVersionedDocuments, he]⟩
  rw [foldlM_statements]
  by_cases hdocuments : SomeRefused (fun t : Tables β => documentFault t.documents) putDocument old
      payload.documents
  · obtain ⟨e, he⟩ := foldlM_checked_of_someRefused hdocuments
    exact ⟨e, by rw [he]; rfl⟩
  · have hversions := h.resolve_left fun hrefused =>
      hdocuments (someRefused_putDocument.mpr hrefused)
    rw [foldlM_checked_of_not hdocuments, ok_bind, foldl_putDocument]
    obtain ⟨e, he⟩ := foldlM_checked_of_someRefused (someRefused_putVersion (t := { old with
      documents := payload.documents.foldl (upsert DocumentRow.id) old.documents }).mpr hversions)
    exact ⟨e, by rw [he]; rfl⟩

theorem import_of_not_refused (h : ¬Refused old payload) :
    old.importVersionedDocuments payload =
      (.ok (old.importReport payload), old.imported payload) := by
  obtain ⟨hdocuments, hversions⟩ := not_or.mp h
  have hrun : payload.statements.foldlM execute old = .ok (old.imported payload) := by
    rw [foldlM_statements, foldlM_checked_of_not (fun hrefused =>
      hdocuments (someRefused_putDocument.mp hrefused)), ok_bind, foldl_putDocument,
      foldlM_checked_of_not (fun hrefused => hversions (someRefused_putVersion.mp hrefused)),
      ok_bind, foldl_putVersion]
    unfold imported
    split_ifs <;> rfl
  rw [importVersionedDocuments, hrun]

end Tables

/-! ## Exports of valid tables -/

section Valid

variable {old source : Tables β}

theorem mem_export_documents {d : DocumentRow} :
    d ∈ (exportVersionedDocuments source).documents ↔ d ∈ source.documents :=
  List.mem_insertionSort _

theorem mem_export_versions {v : VersionRecord β} :
    v ∈ (exportVersionedDocuments source).versions ↔ v ∈ source.versions :=
  List.mem_insertionSort _

theorem mem_imported_documents (hsource : source.Valid) {d : DocumentRow} :
    d ∈ (old.imported (exportVersionedDocuments source)).documents ↔
      d ∈ source.documents ∨ (d ∈ old.documents ∧ ∀ r ∈ source.documents, r.id ≠ d.id) := by
  have hkeys : ∀ r ∈ (exportVersionedDocuments source).documents,
      ∀ r' ∈ (exportVersionedDocuments source).documents, r.id = r'.id → r = r' :=
    fun r hr r' hr' => hsource.documentIds r (mem_export_documents.mp hr) r'
      (mem_export_documents.mp hr')
  refine (mem_foldl_upsert hkeys).trans ?_
  simp only [mem_export_documents]

theorem mem_imported_versions (hsource : source.Valid) {v : VersionRecord β} :
    v ∈ (old.imported (exportVersionedDocuments source)).versions ↔
      v ∈ source.versions ∨ (v ∈ old.versions ∧ ∀ r ∈ source.versions, r.id ≠ v.id) := by
  have hkeys : ∀ r ∈ (exportVersionedDocuments source).versions,
      ∀ r' ∈ (exportVersionedDocuments source).versions, r.id = r'.id → r = r' :=
    fun r hr r' hr' => hsource.versionIds r (mem_export_versions.mp hr) r'
      (mem_export_versions.mp hr')
  refine (mem_foldl_upsert hkeys).trans ?_
  simp only [mem_export_versions]

/-- The active names of documents are unique. -/
def UniqueNames (rows : List DocumentRow) : Prop :=
  ∀ d ∈ rows, ∀ e ∈ rows, d.isActive = true → e.isActive = true → d.kind = e.kind →
    d.name = e.name → d = e

/-- The numbers of the versions of a document are. -/
def UniqueVersions (rows : List (VersionRecord β)) : Prop :=
  ∀ v ∈ rows, ∀ w ∈ rows, v.documentId = w.documentId → v.version = w.version → v = w

theorem UniqueNames.upsert {rows : List DocumentRow} {row : DocumentRow} (h : UniqueNames rows)
    (hfault : documentFault rows row = none) : UniqueNames (upsert DocumentRow.id rows row) := by
  have hfree : ∀ other ∈ rows, other.id ≠ row.id → row.isActive = true → other.isActive = true →
      other.kind = row.kind → other.name ≠ row.name := by
    intro other hmem hne hactive hactive' hkind hname
    unfold documentFault at hfault
    split_ifs at hfault with haudit hname'
    exact hname' (List.any_eq_true.mpr
      ⟨other, hmem, by simp [hne, hactive, hactive', hkind, hname]⟩)
  intro d hd e he hactive hactive' hkind hname
  rcases mem_upsert.mp hd with rfl | ⟨hmem, hne⟩ <;>
    rcases mem_upsert.mp he with rfl | ⟨hmem', hne'⟩
  · rfl
  · exact absurd hname.symm (hfree e hmem' hne' hactive hactive' hkind.symm)
  · exact absurd hname (hfree d hmem hne hactive' hactive hkind)
  · exact h d hmem e hmem' hactive hactive' hkind hname

theorem UniqueVersions.upsert {documents : List DocumentRow} {rows : List (VersionRecord β)}
    {row : VersionRecord β} (h : UniqueVersions rows)
    (hfault : versionFault documents rows row = none) :
    UniqueVersions (upsert VersionRecord.id rows row) := by
  have hfree : ∀ other ∈ rows, other.id ≠ row.id → other.documentId = row.documentId →
      other.version ≠ row.version := by
    intro other hmem hne hdocument hversion
    unfold versionFault at hfault
    split_ifs at hfault with haudit hnumber hreference
    exact hnumber (List.any_eq_true.mpr ⟨other, hmem, by simp [hne, hdocument, hversion]⟩)
  intro v hv w hw hdocument hversion
  rcases mem_upsert.mp hv with rfl | ⟨hmem, hne⟩ <;>
    rcases mem_upsert.mp hw with rfl | ⟨hmem', hne'⟩
  · rfl
  · exact absurd hversion.symm (hfree w hmem' hne' hdocument.symm)
  · exact absurd hversion (hfree v hmem hne hdocument)
  · exact h v hmem w hmem' hdocument hversion

theorem le_max {ρ : Type} (key : ρ → ℕ) {rows : List ρ} {row : ρ} {default : ℕ}
    (h : row ∈ rows) : key row ≤ ((rows.map key).max?).getD default := by
  have hmem : key row ∈ rows.map key := List.mem_map_of_mem h
  obtain ⟨highest, hmax⟩ := Option.isSome_iff_exists.mp (List.isSome_max?_of_mem hmem)
  rw [hmax]
  exact (List.max?_eq_some_iff.mp hmax).2 _ hmem

/-- What an import leaves that is not refused is valid as far as the database sees to it. -/
theorem valid_imported (hold : old.Valid) (hsource : source.Valid)
    (hnot : ¬Refused old (exportVersionedDocuments source))
    (hactive : ∀ d ∈ (old.imported (exportVersionedDocuments source)).documents,
      ∃ v ∈ (old.imported (exportVersionedDocuments source)).versions, v.documentId = d.id ∧
        v.version = d.activeVersion) :
    (old.imported (exportVersionedDocuments source)).Valid where
  documentIds := foldl_invariant (p := fun rows : List DocumentRow =>
      ∀ r ∈ rows, ∀ r' ∈ rows, r.id = r'.id → r = r')
    (fun _ _ h _ => upsert_ids h) (not_or.mp hnot).1 hold.documentIds
  versionIds := foldl_invariant (p := fun rows : List (VersionRecord β) =>
      ∀ r ∈ rows, ∀ r' ∈ rows, r.id = r'.id → r = r')
    (fun _ _ h _ => upsert_ids h) (not_or.mp hnot).2 hold.versionIds
  documentVersions := foldl_invariant (p := UniqueVersions)
    (fun _ _ h hfault => h.upsert hfault) (not_or.mp hnot).2 hold.documentVersions
  activeNames := foldl_invariant (p := UniqueNames)
    (fun _ _ h hfault => h.upsert hfault) (not_or.mp hnot).1 hold.activeNames
  references v hv := by
    obtain hv | ⟨hv, -⟩ := (mem_imported_versions hsource).mp hv
    · obtain ⟨d, hd, hreference⟩ := hsource.references v hv
      exact ⟨d, (mem_imported_documents hsource).mpr (.inl hd), hreference⟩
    · obtain ⟨d, hd, hreference⟩ := hold.references v hv
      by_cases htaken : ∃ r ∈ source.documents, r.id = d.id
      · obtain ⟨r, hr, hid⟩ := htaken
        exact ⟨r, (mem_imported_documents hsource).mpr (.inl hr), hid.trans hreference⟩
      · push Not at htaken
        exact ⟨d, (mem_imported_documents hsource).mpr (.inr ⟨hd, htaken⟩), hreference⟩
  activeVersions := hactive
  documentSeq d hd := by
    show d.id ≤ if (exportVersionedDocuments source).documents = [] then old.documentSeq else _
    split_ifs with hnil
    · obtain hmem | ⟨hmem, -⟩ := (mem_imported_documents hsource).mp hd
      · have hmem := mem_export_documents.mpr hmem
        rw [hnil] at hmem
        cases hmem
      · exact hold.documentSeq d hmem
    · exact le_max DocumentRow.id hd
  versionSeq v hv := by
    show v.id ≤ if (exportVersionedDocuments source).versions = [] then old.versionSeq else _
    split_ifs with hnil
    · obtain hmem | ⟨hmem, -⟩ := (mem_imported_versions hsource).mp hv
      · have hmem := mem_export_versions.mpr hmem
        rw [hnil] at hmem
        cases hmem
      · exact hold.versionSeq v hmem
    · exact le_max VersionRecord.id hv

/-! ## When a restore restores -/

theorem Unmixed.others (h : Unmixed old (exportVersionedDocuments source)) {row : DocumentRow}
    (hrow : row ∈ old.documents)
    (hnot : ¬∃ d ∈ source.documents, SameDocument old (exportVersionedDocuments source) row d) :
    ∀ d ∈ source.documents, d.id ≠ row.id := fun d hd heq =>
  hnot ⟨d, hd, h.documents d (mem_export_documents.mpr hd) row hrow heq.symm⟩

/-- What is restored, where no document is another's. -/
theorem restored_of_unmixed (hold : old.Valid) (hsource : source.Valid)
    (h : Unmixed old (exportVersionedDocuments source))
    (hnot : ¬Refused old (exportVersionedDocuments source)) :
    Restored old (exportVersionedDocuments source)
      (old.imported (exportVersionedDocuments source)) := by
  have hforeign : ∀ {d : DocumentRow}, (∀ r ∈ source.documents, r.id ≠ d.id) →
      ∀ {w : VersionRecord β}, w.documentId = d.id →
        (w ∈ (old.imported (exportVersionedDocuments source)).versions ↔ w ∈ old.versions) := by
    intro d hfree w hw
    rw [mem_imported_versions hsource]
    constructor
    · rintro (hmem | ⟨hmem, -⟩)
      · obtain ⟨r, hr, hreference⟩ := hsource.references w hmem
        exact absurd (hreference.trans hw) (hfree r hr)
      · exact hmem
    · refine fun hmem => .inr ⟨hmem, fun v hv hid => ?_⟩
      obtain ⟨r, hr, hreference⟩ := hsource.references v hv
      exact hfree r hr (hreference.trans
        ((h.versions v (mem_export_versions.mpr hv) w hmem hid.symm).symm.trans hw))
  refine ⟨fun d hd => ?_, fun d hd w hw => ?_, fun row hrow hnone => ?_,
    valid_imported hold hsource hnot fun d hd => ?_⟩
  · exact (mem_imported_documents hsource).mpr (.inl (mem_export_documents.mp hd))
  · rw [mem_imported_versions hsource, mem_export_versions]
    refine or_congr_right (and_congr_right fun hmem => ?_)
    obtain ⟨row, hrow, hreference⟩ := hold.references w hmem
    have hsame := h.documents d hd row hrow (hreference.trans hw)
    constructor
    · refine fun hfree => ⟨⟨row, hrow, hsame⟩, fun v hv hdocument hversion => ?_⟩
      obtain ⟨w', hmem', hid, hdocument', hversion', -⟩ := hsame.versions v hv hdocument
      obtain rfl := hold.documentVersions w' hmem' w hmem (hdocument'.trans hw.symm)
        (hversion'.trans hversion)
      exact hfree v (mem_export_versions.mp hv) hid.symm
    · rintro ⟨-, hlater⟩ v hv hid
      have hv := mem_export_versions.mpr hv
      have hdocument : v.documentId = d.id := (h.versions v hv w hmem hid.symm).symm.trans hw
      obtain ⟨w', hmem', hid', -, hversion, -⟩ := hsame.versions v hv hdocument
      obtain rfl := hold.versionIds w' hmem' w hmem (hid'.trans hid)
      exact hlater v hv hdocument hversion.symm
  · have hfree := h.others hrow fun ⟨d, hd, hsame⟩ =>
      hnone ⟨d, mem_export_documents.mpr hd, hsame⟩
    exact ⟨(mem_imported_documents hsource).mpr (.inr ⟨hrow, hfree⟩), fun w => hforeign hfree⟩
  · obtain hmem | ⟨hmem, hfree⟩ := (mem_imported_documents hsource).mp hd
    · obtain ⟨v, hv, hactive⟩ := hsource.activeVersions d hmem
      exact ⟨v, (mem_imported_versions hsource).mpr (.inl hv), hactive⟩
    · obtain ⟨v, hv, hdocument, hactive⟩ := hold.activeVersions d hmem
      exact ⟨v, (hforeign hfree hdocument).mpr hv, hdocument, hactive⟩

/-- A restore that restores has mixed no document with another. -/
theorem unmixed_of_restored {new : Tables β} (hold : old.Valid) (hsource : source.Valid)
    (h : Restored old (exportVersionedDocuments source) new) :
    Unmixed old (exportVersionedDocuments source) := by
  have hsame : ∀ d ∈ (exportVersionedDocuments source).documents, ∀ row ∈ old.documents,
      row.id = d.id → SameDocument old (exportVersionedDocuments source) row d := by
    intro d hd row hrow hid
    by_contra hnot
    by_cases hother : ∃ e ∈ (exportVersionedDocuments source).documents,
        SameDocument old (exportVersionedDocuments source) row e
    · obtain ⟨e, he, hsame⟩ := hother
      obtain rfl := h.valid.documentIds e (h.documents e he) d (h.documents d hd)
        (hsame.id.symm.trans hid)
      exact hnot hsame
    · obtain ⟨hkept, hversions⟩ := h.others row hrow hother
      obtain rfl := h.valid.documentIds row hkept d (h.documents d hd) hid
      have hbefore : ∀ v ∈ (exportVersionedDocuments source).versions, v.documentId = row.id →
          v ∈ old.versions := fun v hv hdocument =>
        (hversions v hdocument).mp ((h.versions row hd v hdocument).mpr (.inl hv))
      refine hnot ⟨rfl, rfl, rfl, fun v hv hdocument =>
        ⟨v, hbefore v hv hdocument, rfl, hdocument, rfl, rfl⟩, fun w hw hdocument => .inl ?_⟩
      obtain hmem | ⟨-, ⟨other, hmem, hsame⟩, -⟩ :=
        (h.versions row hd w hdocument).mp ((hversions w hdocument).mpr hw)
      · exact ⟨w, hmem, hdocument, rfl⟩
      · obtain rfl := hold.documentIds other hmem row hrow hsame.id
        exact absurd hsame hnot
  refine ⟨hsame, fun v hv w hw hid => ?_⟩
  obtain ⟨d, hd, hdocument⟩ := hsource.references v (mem_export_versions.mp hv)
  have hnew : v ∈ new.versions :=
    (h.versions d (mem_export_documents.mpr hd) v hdocument.symm).mpr (.inl hv)
  have hcopy : w ∈ new.versions → w.documentId = v.documentId := fun hkept =>
    congrArg VersionRecord.documentId (h.valid.versionIds w hkept v hnew hid)
  obtain ⟨row, hrow, hreference⟩ := hold.references w hw
  by_cases hother : ∃ e ∈ (exportVersionedDocuments source).documents,
      SameDocument old (exportVersionedDocuments source) row e
  · obtain ⟨e, he, hrestored⟩ := hother
    have hwe : w.documentId = e.id := hreference.symm.trans hrestored.id
    by_cases hnumber : ∃ v' ∈ (exportVersionedDocuments source).versions, v'.documentId = e.id ∧
        v'.version = w.version
    · obtain ⟨v', hv', hdocument', hversion⟩ := hnumber
      obtain ⟨w', hmem, hid', hw'e, hversion', -⟩ := hrestored.versions v' hv' hdocument'
      obtain rfl := hold.documentVersions w' hmem w hw (hw'e.trans hwe.symm)
        (hversion'.trans hversion)
      obtain rfl := hsource.versionIds v' (mem_export_versions.mp hv') v
        (mem_export_versions.mp hv) (hid'.symm.trans hid)
      exact hwe.trans hdocument'.symm
    · exact hcopy ((h.versions e he w hwe).mpr (.inr ⟨hw, ⟨row, hrow, hrestored⟩,
        fun v' hv' hdocument' heq => hnumber ⟨v', hv', hdocument', heq⟩⟩))
  · exact hcopy (((h.others row hrow hother).2 w hreference.symm).mpr hw)

/-- A restore restores, or raises, exactly where the database refuses a row or no document is
mixed with another. -/
theorem restoresOrRaises_iff (hold : old.Valid) (hsource : source.Valid) :
    RestoresOrRaises old (exportVersionedDocuments source) ↔
      Refused old (exportVersionedDocuments source) ∨
        Unmixed old (exportVersionedDocuments source) := by
  by_cases hrefused : Refused old (exportVersionedDocuments source)
  · obtain ⟨e, he⟩ := Tables.import_of_refused hrefused
    refine ⟨fun _ => .inl hrefused, fun _ => ?_⟩
    unfold RestoresOrRaises
    rw [he]
  · have hrestores : RestoresOrRaises old (exportVersionedDocuments source) ↔
        Restored old (exportVersionedDocuments source)
          (old.imported (exportVersionedDocuments source)) := by
      unfold RestoresOrRaises
      rw [Tables.import_of_not_refused hrefused]
    rw [hrestores, or_iff_right hrefused]
    exact ⟨unmixed_of_restored hold hsource, fun h => restored_of_unmixed hold hsource h hrefused⟩

end Valid

end TaiSkeleton.Versioning
