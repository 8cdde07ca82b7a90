import Mathlib.Data.List.Range
import TaiSkeleton.Lib.Run
import TaiSkeleton.Lib.ReadCommitted

/-!
# The versioned store

A document is a row of `versioned_documents` with its rows of `versioned_document_versions`. Each
step is one SQL statement of one transaction. A transaction that is handed in as `tx` may run any
number of operations before it commits; a raised error other than one of "not found" ends it.

A statement that waits for a row, or for the outcome of an insert that would collide with its
own, is a step only once the wait is over.
-/

namespace TaiSkeleton.Versioning

open Lib

abbrev DocId := ℕ

abbrev TxId := ℕ

variable {β : Type}

/-- A row of `versioned_document_versions`. -/
structure VersionRow (β : Type) where
  version : ℕ
  body : β
  tags : List String
deriving DecidableEq

/-- A row of `versioned_documents`, with the version rows that reference it. -/
structure Document (β : Type) where
  kind : String
  name : String
  activeVersion : ℕ
  isActive : Bool
  versions : List (VersionRow β)
deriving DecidableEq

namespace Document

/-- The version numbers, in the order of the appends. -/
def numbers (doc : Document β) : List ℕ := doc.versions.map VersionRow.version

/-- What was appended: each version's number and body. -/
def log (doc : Document β) : List (ℕ × β) := doc.versions.map fun row => (row.version, row.body)

/-- `INSERT INTO versioned_document_versions` -/
def append (doc : Document β) (version : ℕ) (body : β) (tags : List String) : Document β :=
  { doc with versions := doc.versions ++ [⟨version, body, tags⟩] }

/-- `UPDATE versioned_document_versions SET tags` -/
def retag (version : ℕ) (tags : List String) (doc : Document β) : Document β :=
  { doc with versions := doc.versions.map fun row =>
      if row.version = version then { row with tags } else row }

end Document

/-- A row is active under a kind and a name. -/
def Named (row : Option (Document β)) (key : String × String) : Prop :=
  ∃ doc, row = some doc ∧ doc.isActive = true ∧ (doc.kind, doc.name) = key

/-- The kind whose rows the triggers guard. -/
def roleAudit : String := "role_audit"

/-- Where a transaction stands: between two operations, or before the next statement of one. -/
inductive Stage (β : Type) where
  | idle
  /-- `create` has inserted the document's row. -/
  | creating (doc : DocId) (body : β) (tags : List String)
  /-- `save_version` has locked the row. -/
  | saving (doc : DocId) (body : β) (tags : List String)
  /-- `save_version` has read the highest number; `version` is the next. -/
  | appending (doc : DocId) (version : ℕ) (body : β) (tags : List String)
  /-- `rollback` has locked the row. -/
  | checking (doc : DocId) (version : ℕ)
  /-- The version is there; the pointer is to be set. -/
  | pointing (doc : DocId) (version : ℕ)
  /-- `set_version_tags` has resolved the document. -/
  | tagging (doc : DocId) (version : ℕ) (tags : List String)
  /-- `rename` has re-keyed the row. -/
  | renamed (doc : DocId) (newName : String)

structure State (β : Type) where
  db : Rows TxId DocId (Document β)
  nextId : DocId
  stage : TxId → Stage β

namespace State

/-- The state after a statement of `t`. -/
def set (s : State β) (t : TxId) (db : Rows TxId DocId (Document β)) (stage : Stage β) :
    State β where
  db := db
  nextId := s.nextId
  stage := Function.update s.stage t stage

/-- The check of `versioned_documents_active_name_unique` lets `t` make the row `d` active under a
key: neither a row `t` sees nor one that another transaction has in flight is. -/
def KeyFree (s : State β) (t : TxId) (d : DocId) (key : String × String) : Prop :=
  (∀ d', d' ≠ d → ¬ Named (s.db.view t d') key) ∧
    ∀ t' d' row, t' ≠ t → s.db.pending t' d' = some row → ¬ Named row key

end State

/-- `UPDATE versioned_document_versions SET tags`: the version's row is one row for every
transaction, whichever of them holds the document's. -/
def retagRows (db : Rows TxId DocId (Document β)) (d : DocId) (version : ℕ)
    (tags : List String) : Rows TxId DocId (Document β) where
  committed := Function.update db.committed d ((db.committed d).map (Document.retag version tags))
  pending t := Function.update (db.pending t) d
    ((db.pending t d).map (Option.map (Document.retag version tags)))

/-- One statement of the transaction `t`. -/
inductive Step : State β → TxId → State β → Prop where
  /-- `create`: the insert of the document's row. -/
  | insertDocument {s : State β} {t : TxId} {kind name : String} (body : β) (tags : List String)
      (idle : s.stage t = .idle) (free : s.KeyFree t s.nextId (kind, name)) :
      Step s t { s.set t (s.db.write t s.nextId (some ⟨kind, name, 1, true, []⟩))
        (.creating s.nextId body tags) with nextId := s.nextId + 1 }
  /-- `create`: the insert of the first version. -/
  | insertFirst {s : State β} {t : TxId} {d : DocId} {body : β} {tags : List String}
      {doc : Document β} (stage : s.stage t = .creating d body tags)
      (row : s.db.view t d = some doc) (new : 1 ∉ doc.numbers) :
      Step s t (s.set t (s.db.write t d (some (doc.append 1 body tags))) .idle)
  /-- `save_version`: `SELECT … FOR UPDATE`. -/
  | lockForSave {s : State β} {t : TxId} {d : DocId} {key : String × String} {doc : Document β}
      (body : β) (tags : List String) (idle : s.stage t = .idle) (row : s.db.view t d = some doc)
      (named : Named (some doc) key) (free : s.db.FreeFor t d) :
      Step s t (s.set t (s.db.write t d (some doc)) (.saving d body tags))
  /-- `save_version`: `SELECT MAX(version)`. -/
  | readMax {s : State β} {t : TxId} {d : DocId} {body : β} {tags : List String}
      {doc : Document β} {max : ℕ} (stage : s.stage t = .saving d body tags)
      (row : s.db.view t d = some doc) (read : doc.numbers.max? = some max) :
      Step s t (s.set t s.db (.appending d (max + 1) body tags))
  /-- `save_version`: the insert of the version. -/
  | insertVersion {s : State β} {t : TxId} {d : DocId} {version : ℕ} {body : β}
      {tags : List String} {doc : Document β} (stage : s.stage t = .appending d version body tags)
      (row : s.db.view t d = some doc) (new : version ∉ doc.numbers) :
      Step s t (s.set t (s.db.write t d (some (doc.append version body tags)))
        (.pointing d version))
  /-- `rollback`: `SELECT … FOR UPDATE`. -/
  | lockForRollback {s : State β} {t : TxId} {d : DocId} {key : String × String}
      {doc : Document β} (version : ℕ) (idle : s.stage t = .idle)
      (row : s.db.view t d = some doc) (named : Named (some doc) key)
      (free : s.db.FreeFor t d) :
      Step s t (s.set t (s.db.write t d (some doc)) (.checking d version))
  /-- `rollback`: the version exists. -/
  | findVersion {s : State β} {t : TxId} {d : DocId} {version : ℕ} {doc : Document β}
      (stage : s.stage t = .checking d version) (row : s.db.view t d = some doc)
      (found : version ∈ doc.numbers) :
      Step s t (s.set t s.db (.pointing d version))
  /-- `rollback`: the version does not exist. -/
  | missVersion {s : State β} {t : TxId} {d : DocId} {version : ℕ} {doc : Document β}
      (stage : s.stage t = .checking d version) (row : s.db.view t d = some doc)
      (missed : version ∉ doc.numbers) : Step s t (s.set t s.db .idle)
  /-- `save_version` and `rollback`: `UPDATE … SET active_version`. -/
  | point {s : State β} {t : TxId} {d : DocId} {version : ℕ} {doc : Document β}
      (stage : s.stage t = .pointing d version) (row : s.db.view t d = some doc) :
      Step s t (s.set t (s.db.write t d (some { doc with activeVersion := version })) .idle)
  /-- `get_active_body` with `for_update`. -/
  | lockBody {s : State β} {t : TxId} {d : DocId} {key : String × String} {doc : Document β}
      (idle : s.stage t = .idle) (row : s.db.view t d = some doc) (named : Named (some doc) key)
      (free : s.db.FreeFor t d) : Step s t (s.set t (s.db.write t d (some doc)) .idle)
  /-- `set_version_tags`, in a transaction of its own: the document is resolved. -/
  | resolve {s : State β} {t : TxId} {d : DocId} {key : String × String} (version : ℕ)
      (tags : List String) (idle : s.stage t = .idle) (own : ∀ d', s.db.pending t d' = none)
      (named : Named (s.db.view t d) key) :
      Step s t (s.set t s.db (.tagging d version tags))
  /-- `set_version_tags`: the update of the version's row, and the commit. -/
  | setTags {s : State β} {t : TxId} {d : DocId} {version : ℕ} {tags : List String}
      {doc : Document β} (stage : s.stage t = .tagging d version tags)
      (row : s.db.committed d = some doc) (found : version ∈ doc.numbers)
      (kind : doc.kind ≠ roleAudit) (kept : ∀ t', s.db.pending t' d ≠ some none) :
      Step s t (s.set t (retagRows s.db d version tags) .idle)
  /-- `rename`, in a transaction of its own. -/
  | rename {s : State β} {t : TxId} {d : DocId} {key : String × String} {doc : Document β}
      {newName : String} (idle : s.stage t = .idle) (own : ∀ d', s.db.pending t d' = none)
      (row : s.db.view t d = some doc) (named : Named (some doc) key)
      (kind : doc.kind ≠ roleAudit) (free : s.db.FreeFor t d)
      (keyFree : s.KeyFree t d (doc.kind, newName)) :
      Step s t (s.set t (s.db.write t d (some { doc with name := newName }))
        (.renamed d newName))
  /-- `soft_delete`. -/
  | softDelete {s : State β} {t : TxId} {d : DocId} {key : String × String} {doc : Document β}
      (idle : s.stage t = .idle) (row : s.db.view t d = some doc) (named : Named (some doc) key)
      (kind : doc.kind ≠ roleAudit) (free : s.db.FreeFor t d) :
      Step s t (s.set t (s.db.write t d (some { doc with isActive := false })) .idle)
  /-- `delete`; the version rows go with their document. -/
  | delete {s : State β} {t : TxId} {d : DocId} {key : String × String} {doc : Document β}
      (idle : s.stage t = .idle) (row : s.db.view t d = some doc) (named : Named (some doc) key)
      (kind : doc.kind ≠ roleAudit) (free : s.db.FreeFor t d) :
      Step s t (s.set t (s.db.write t d none) .idle)
  /-- The transaction commits, between two operations. -/
  | commit {s : State β} {t : TxId}
      (ended : s.stage t = .idle ∨ ∃ d newName, s.stage t = .renamed d newName) :
      Step s t (s.set t (s.db.commit t) .idle)
  /-- The transaction is rolled back, wherever it stands. -/
  | abort {s : State β} {t : TxId} : Step s t (s.set t (s.db.abort t) .idle)

/-- The store from its first day on, with any number of transactions at once. -/
def store (β : Type) : System (State β) TxId where
  init s := s = ⟨.empty, 0, fun _ => .idle⟩
  step := Step

end TaiSkeleton.Versioning
