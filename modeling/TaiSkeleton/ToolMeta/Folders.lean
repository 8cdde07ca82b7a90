import TaiSkeleton.Lib.Forest
import TaiSkeleton.Lib.ReadCommitted
import TaiSkeleton.Lib.Run

/-!
# The table of the tool folders

The transactions on `tool_folders`, statement by statement, under READ COMMITTED: a written row stays
locked until the transaction ends, and a parent that a row is written under cannot be deleted or
moved meanwhile by another transaction. A move reads the whole table for its cycle check before it
writes its row; an import writes its rows without one.
-/

namespace TaiSkeleton.ToolMeta

open Lib Lib.Forest

/-- A row of `tool_folders` under its id. -/
structure Folder (κ ν : Type) where
  name : ν
  parent : Option κ
deriving DecidableEq

section

variable {κ ν : Type}

def parentOf (rows : κ → Option (Folder κ ν)) (folder : κ) : Option κ :=
  (rows folder).bind Folder.parent

/-- `_reject_cycle`: whether the chain of the new parent comes to the folder, if the fuel lasts. -/
def rejectCycle [DecidableEq κ] (rows : κ → Option (Folder κ ν)) (folder newParent : κ)
    (fuel : ℕ) : Option Bool :=
  climb (parentOf rows) folder fuel (some newParent)

/-- The folders that are ready to be written, of those that remain. -/
def ready [DecidableEq κ] (ids : List κ) (existing : κ → Bool) (placed : List κ)
    (remaining : List (κ × Folder κ ν)) : List (κ × Folder κ ν) :=
  let found := remaining.filter fun folder =>
    match folder.2.parent with
    | none => true
    | some parent => placed.contains parent || existing parent || !ids.contains parent
  if found.isEmpty then remaining else found

theorem ready_subset [DecidableEq κ] (ids : List κ) (existing : κ → Bool) (placed : List κ)
    (remaining : List (κ × Folder κ ν)) : ready ids existing placed remaining ⊆ remaining := by
  unfold ready
  dsimp only
  split_ifs
  · exact List.Subset.refl _
  · exact List.filter_subset_self _

theorem ready_ne_nil [DecidableEq κ] (ids : List κ) (existing : κ → Bool) (placed : List κ)
    {remaining : List (κ × Folder κ ν)} (h : remaining ≠ []) :
    ready ids existing placed remaining ≠ [] := by
  unfold ready
  dsimp only
  split_ifs with hempty
  · exact h
  · simpa using hempty

/-- The folders that remain. -/
def unplaced [DecidableEq κ] (placed : List κ) (remaining : List (κ × Folder κ ν)) :
    List (κ × Folder κ ν) :=
  remaining.filter fun folder => !placed.contains folder.1

/-- The loop of `_topological`. -/
def place [DecidableEq κ] (ids : List κ) (existing : κ → Bool) (placed : List κ)
    (remaining : List (κ × Folder κ ν)) : List (κ × Folder κ ν) :=
  if remaining = [] then []
  else
    let found := ready ids existing placed remaining
    let placed' := placed ++ found.map Prod.fst
    found ++ place ids existing placed' (unplaced placed' remaining)
termination_by remaining.length
decreasing_by
  next h =>
  obtain ⟨folder, hfolder⟩ := List.exists_mem_of_ne_nil _ (ready_ne_nil ids existing placed h)
  refine List.length_filter_lt_length_iff_exists.mpr
    ⟨folder, ready_subset ids existing placed remaining hfolder, ?_⟩
  simp only [Bool.not_eq_true', Bool.not_eq_false, List.contains_iff_mem]
  exact List.mem_append_right placed (List.mem_map_of_mem hfolder)

/-- `_topological` -/
def topological [DecidableEq κ] (folders : List (κ × Folder κ ν)) (existing : κ → Bool) :
    List (κ × Folder κ ν) :=
  place (folders.map Prod.fst) existing [] folders

end

/-! ## Transactions -/

/-- Where the transaction of a call is: what it has still to read or to write. -/
inductive Call (κ ν : Type) where
  | idle
  | creating (name : ν) (parent : Option κ)
  | renaming (folder : κ) (name : ν)
  | placing (folder : κ) (parent : Option κ)
  | checking (folder parent : κ)
  | moving (folder : κ) (parent : Option κ)
  | emptying (folder : κ)
  | deleting (folder : κ)
  | importing (folders : List (κ × Folder κ ν))
  | written

/-- The table with the locks on it, and the call of each transaction; `shares` are the rows that a
transaction has written a row under. -/
structure State (τ κ ν : Type) where
  rows : Rows τ κ (Folder κ ν)
  shares : τ → κ → Prop
  calls : τ → Call κ ν

inductive Act (τ κ ν : Type) where
  | create (t : τ) (name : ν) (parent : Option κ)
  | rename (t : τ) (folder : κ) (name : ν)
  | move (t : τ) (folder : κ) (parent : Option κ)
  | delete (t : τ) (folder : κ)
  | load (t : τ) (folders : List (κ × Folder κ ν))
  | read (t : τ)
  | write (t : τ) (id : κ)
  | commit (t : τ)
  | abort (t : τ)

namespace State

variable {τ κ ν : Type}

/-- The table as a transaction reads it. -/
def view (s : State τ κ ν) (t : τ) : κ → Option (Folder κ ν) := s.rows.view t

/-- A folder that a transaction finds. -/
def Finds (s : State τ κ ν) (t : τ) (folder : κ) : Prop := (s.view t folder).isSome = true

/-- A new id, which stands nowhere in the table. -/
def Fresh (s : State τ κ ν) (id : κ) : Prop :=
  ∀ t, s.view t id = none ∧ ∀ k, parentOf (s.view t) k ≠ some id

/-- The locks let the transaction write a row: nobody else has written it, and nobody has written a
row under it unless it stays as it is. -/
def Unlocked (s : State τ κ ν) (t : τ) (id : κ) (row : Option (Folder κ ν)) : Prop :=
  s.rows.FreeFor t id ∧ (row = s.view t id ∨ ∀ t', t' ≠ t → ¬s.shares t' id)

/-- The constraints let the transaction write a row: a new parent is there, and not about to be
moved or deleted by another transaction, and no sibling has its name. -/
def Admits (s : State τ κ ν) (t : τ) (id : κ) (row : Folder κ ν) : Prop :=
  (∀ parent, row.parent = some parent → parentOf (s.view t) id ≠ some parent → parent ≠ id →
    s.Finds t parent ∧ ∀ t', t' ≠ t → ∀ row', s.rows.pending t' parent = some row' →
      row' = s.rows.committed parent) ∧
  ∀ k, k ≠ id → s.view t k ≠ some row ∧ ∀ t', t' ≠ t → s.rows.pending t' k ≠ some (some row)

/-- No row of the table is without its parent, and no two siblings have one name. -/
def Consistent (rows : κ → Option (Folder κ ν)) : Prop :=
  (∀ k parent, parentOf rows k = some parent → (rows parent).isSome = true) ∧
  ∀ k k' row, rows k = some row → rows k' = some row → k = k'

variable [DecidableEq τ]

def set (s : State τ κ ν) (t : τ) (call : Call κ ν) : State τ κ ν :=
  { s with calls := Function.update s.calls t call }

/-- The transaction ends, and its locks are gone. -/
def finish (s : State τ κ ν) (t : τ) (rows : Rows τ κ (Folder κ ν)) : State τ κ ν where
  rows := rows
  shares := Function.update s.shares t fun _ => False
  calls := Function.update s.calls t .idle

variable [DecidableEq κ]

/-- A row is written, under its parent if it gets a new one. -/
def put (s : State τ κ ν) (t : τ) (id : κ) (row : Option (Folder κ ν)) (call : Call κ ν) :
    State τ κ ν where
  rows := s.rows.write t id row
  shares := Function.update s.shares t fun k =>
    s.shares t k ∨ row.bind Folder.parent = some k ∧ parentOf (s.view t) id ≠ some k
  calls := Function.update s.calls t call

end State

section

variable {τ κ ν : Type} [DecidableEq τ] [DecidableEq κ]

/-- The next statement of a transaction, where it is a read. -/
inductive Reads (s : State τ κ ν) (t : τ) : Call κ ν → Call κ ν → Prop where
  | toRoot {folder : κ} : Reads s t (.placing folder none) (.moving folder none)
  | under {folder parent : κ} (h : s.Finds t parent) :
    Reads s t (.placing folder (some parent)) (.checking folder parent)
  | check {folder parent : κ} {fuel : ℕ}
    (h : rejectCycle (s.view t) folder parent fuel = some false) :
    Reads s t (.checking folder parent) (.moving folder (some parent))
  | empty {folder : κ} (h : ∀ k, parentOf (s.view t) k ≠ some folder) :
    Reads s t (.emptying folder) (.deleting folder)

/-- The next statement of a transaction, where it writes a row. -/
inductive Writes (s : State τ κ ν) (t : τ) :
    Call κ ν → κ → Option (Folder κ ν) → Call κ ν → Prop where
  | create {id : κ} {name : ν} {parent : Option κ} (h : s.Fresh id) (hne : parent ≠ some id)
    (hadmits : s.Admits t id ⟨name, parent⟩) :
    Writes s t (.creating name parent) id (some ⟨name, parent⟩) .written
  | rename {folder : κ} {name : ν} {row : Folder κ ν} (h : s.view t folder = some row)
    (hadmits : s.Admits t folder { row with name := name }) :
    Writes s t (.renaming folder name) folder (some { row with name := name }) .written
  | move {folder : κ} {parent : Option κ} {row : Folder κ ν} (h : s.view t folder = some row)
    (hadmits : s.Admits t folder { row with parent := parent }) :
    Writes s t (.moving folder parent) folder (some { row with parent := parent }) .written
  | delete {folder : κ} (h : ∀ k, parentOf (s.view t) k ≠ some folder) :
    Writes s t (.deleting folder) folder none .written
  | load {id : κ} {row : Folder κ ν} {folders : List (κ × Folder κ ν)}
    (hadmits : s.Admits t id row) :
    Writes s t (.importing ((id, row) :: folders)) id (some row) (.importing folders)

/-- A step of the transactions. A transaction may end at any time without a trace, be it that a
check of its call or a constraint fails. -/
inductive Step (s : State τ κ ν) : Act τ κ ν → State τ κ ν → Prop where
  | create {t : τ} {name : ν} {parent : Option κ} (hidle : s.calls t = .idle)
    (hparent : ∀ p, parent = some p → s.Finds t p) :
    Step s (.create t name parent) (s.set t (.creating name parent))
  | rename {t : τ} {folder : κ} {name : ν} (hidle : s.calls t = .idle)
    (hfolder : s.Finds t folder) : Step s (.rename t folder name) (s.set t (.renaming folder name))
  | move {t : τ} {folder : κ} {parent : Option κ} (hidle : s.calls t = .idle)
    (hfolder : s.Finds t folder) :
    Step s (.move t folder parent) (s.set t (.placing folder parent))
  | delete {t : τ} {folder : κ} (hidle : s.calls t = .idle) (hfolder : s.Finds t folder) :
    Step s (.delete t folder) (s.set t (.emptying folder))
  | load {t : τ} {folders : List (κ × Folder κ ν)} (hidle : s.calls t = .idle) :
    Step s (.load t folders)
      (s.set t (.importing (topological folders fun k => (s.view t k).isSome)))
  | read {t : τ} {call : Call κ ν} (h : Reads s t (s.calls t) call) : Step s (.read t) (s.set t call)
  | write {t : τ} {id : κ} {row : Option (Folder κ ν)} {call : Call κ ν}
    (h : Writes s t (s.calls t) id row call) (hunlocked : s.Unlocked t id row) :
    Step s (.write t id) (s.put t id row call)
  | commit {t : τ} (hdone : s.calls t = .written ∨ s.calls t = .importing [])
    (hconsistent : State.Consistent (s.view t)) :
    Step s (.commit t) (s.finish t (s.rows.commit t))
  | abort {t : τ} : Step s (.abort t) (s.finish t (s.rows.abort t))

/-- The transactions on a table that is empty at first. -/
def system (τ κ ν : Type) [DecidableEq τ] [DecidableEq κ] : System (State τ κ ν) (Act τ κ ν) where
  init s := s = ⟨.empty, fun _ _ => False, fun _ => .idle⟩
  step := Step

/-- The chain of parents of each folder reaches a root. -/
inductive ReachesRoot (rows : κ → Option (Folder κ ν)) : κ → Prop where
  | root {k : κ} {row : Folder κ ν} (h : rows k = some row) (hroot : row.parent = none) :
    ReachesRoot rows k
  | step {k parent : κ} {row : Folder κ ν} (h : rows k = some row)
    (hparent : row.parent = some parent) (hreaches : ReachesRoot rows parent) : ReachesRoot rows k

end

end TaiSkeleton.ToolMeta
