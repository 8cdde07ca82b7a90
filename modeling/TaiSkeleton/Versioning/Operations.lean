import TaiSkeleton.Versioning.Invariant

/-!
# The operations on one document

What a whole operation of the store makes of a document, where the lock on the document's row is
held from its first statement to its commit.
-/

namespace TaiSkeleton.Versioning.Document

variable {β : Type}

/-- The body of a version. -/
def bodyAt (doc : Document β) (version : ℕ) : Option β :=
  (doc.versions.find? fun row => row.version = version).map VersionRow.body

/-- `get_active_body` -/
def activeBody (doc : Document β) : Option β := doc.bodyAt doc.activeVersion

/-- The document that `create` leaves. -/
def create (kind name : String) (body : β) : Document β where
  kind := kind
  name := name
  activeVersion := 1
  isActive := true
  versions := [⟨1, body, []⟩]

/-- The document that `save_version` leaves. -/
def saveVersion (doc : Document β) (body : β) : Document β :=
  let version := doc.numbers.max?.getD 0 + 1
  { doc.append version body [] with activeVersion := version }

/-- The document that `rollback` leaves. -/
def rollback (doc : Document β) (version : ℕ) : Document β :=
  { doc with activeVersion := version }

variable {doc : Document β} {version : ℕ} {body : β}

theorem mem_numbers_of_bodyAt (h : doc.bodyAt version = some body) : version ∈ doc.numbers := by
  obtain ⟨row, hrow, -⟩ := Option.map_eq_some_iff.mp h
  have hversion : row.version = version := by simpa using List.find?_some hrow
  exact List.mem_map.mpr ⟨row, List.mem_of_find?_eq_some hrow, hversion⟩

/-- Every number of a version has a body. -/
theorem bodyAt_of_mem_numbers (h : version ∈ doc.numbers) :
    ∃ body, doc.bodyAt version = some body := by
  obtain ⟨row, hrow, rfl⟩ := List.mem_map.mp h
  have hfound : (doc.versions.find? fun row' => row'.version = row.version).isSome = true :=
    List.find?_isSome.mpr ⟨row, hrow, decide_eq_true rfl⟩
  obtain ⟨found, hfound⟩ := Option.isSome_iff_exists.mp hfound
  exact ⟨found.body, by rw [bodyAt, hfound, Option.map_some]⟩

theorem create_wellFormed {kind name : String} : (create kind name body).WellFormed :=
  ⟨rfl, List.mem_singleton.mpr rfl⟩

theorem activeBody_create {kind name : String} : (create kind name body).activeBody = some body :=
  rfl

theorem saveVersion_eq (h : doc.WellFormed) : doc.saveVersion body =
    { doc.append (doc.versions.length + 1) body [] with
      activeVersion := doc.versions.length + 1 } := by
  obtain ⟨highest, hmax⟩ : ∃ highest, doc.numbers.max? = some highest := by
    cases hmax : doc.numbers.max? with
    | none => exact absurd h.active (by simp [List.max?_eq_none_iff.mp hmax])
    | some highest => exact ⟨highest, rfl⟩
  simp only [saveVersion, hmax, Option.getD_some, h.max hmax]

theorem WellFormed.saveVersion (h : doc.WellFormed) : (doc.saveVersion body).WellFormed := by
  rw [saveVersion_eq h]
  refine h.append.point ?_
  rw [numbers_append]
  exact List.mem_append_right _ (List.mem_singleton.mpr rfl)

/-- What is appended is the active body. -/
theorem activeBody_saveVersion (h : doc.WellFormed) :
    (doc.saveVersion body).activeBody = some body := by
  have hnone : (doc.versions.find? fun row => row.version = doc.versions.length + 1) = none := by
    refine List.find?_eq_none.mpr fun row hrow => ?_
    have hmem : row.version ∈ doc.numbers := List.mem_map_of_mem hrow
    rw [h.numbers, List.mem_range'_1] at hmem
    simp only [decide_eq_true_eq]
    omega
  rw [saveVersion_eq h]
  show ((doc.versions ++ [_]).find? _).map _ = _
  rw [List.find?_append, hnone]
  simp

/-- An append leaves the versions before. -/
theorem bodyAt_saveVersion {body' : β} (h : doc.bodyAt version = some body) :
    (doc.saveVersion body').bodyAt version = some body := by
  obtain ⟨row, hrow, hbody⟩ := Option.map_eq_some_iff.mp h
  show ((doc.versions ++ [_]).find? _).map _ = _
  rw [List.find?_append, hrow]
  exact congrArg some hbody

end TaiSkeleton.Versioning.Document
