import TaiSkeleton.Versioning.Backup

/-!
# The serial keys while an import runs

What the statements of an import, of creates and of saves do to the keys of the two tables and to
the sequences they are drawn from, in any order. A draw is never taken back, and a `setval` sets
what its snapshot saw; as long as that covers every key in use, every key drawn later is free.
-/

namespace TaiSkeleton.Versioning

open Lib

/-- A table with a serial key. -/
inductive KeyTable where
  | documents
  | versions
deriving DecidableEq

/-- The key of a row. -/
abbrev Key := KeyTable × ℕ

/-- A call that inserts. -/
inductive InsertCall where
  | create
  | saveVersion
deriving DecidableEq

/-- The tables that its statements insert into, in order. -/
def InsertCall.tables : InsertCall → List KeyTable
  | .create => [.documents, .versions]
  | .saveVersion => [.versions]

/-- The transaction of one or more such calls. -/
structure Insertion where
  id : ℕ
  /-- The tables it has yet to insert into. -/
  rest : List KeyTable
  /-- The key its statement has drawn and not placed. -/
  drawn : Option Key
  /-- It was drawn after the import had returned. -/
  late : Bool
  /-- The keys of the rows it has written. -/
  placed : List Key
deriving DecidableEq

/-- Where the import is. -/
inductive Restore (β : Type) where
  | notStarted
  /-- Its statements left, the keys of the rows it has written, and the maximum that the `setval`
  it is at has read. -/
  | running (rest : List (ImportStatement β)) (placed : List Key) (highest : Option ℕ)
  | returned

/-- The keys of the committed rows, the last values of the sequences, and the transactions. -/
structure Serials (β : Type) where
  committed : List Key
  last : KeyTable → ℕ
  insertions : List Insertion
  restore : Restore β

inductive SerialAction (β : Type) where
  | begin (id : ℕ) (calls : List InsertCall)
  /-- The statement of an insert draws its key. -/
  | draw (id : ℕ)
  /-- The row of an insert goes into the index of the keys, or collides with one there. -/
  | place (id : ℕ)
  | commit (id : ℕ)
  | rollback (id : ℕ)
  | delete (key : Key)
  | startRestore (payload : Payload β)
  /-- A statement of the import; of a `setval` its read of the maximum, then the reset. -/
  | restoreStatement
  | commitRestore
  | abortRestore

variable {β : Type}

/-- The table of a statement. -/
def ImportStatement.table : ImportStatement β → KeyTable
  | .upsertDocument _ | .setvalDocuments => .documents
  | .upsertVersion _ | .setvalVersions => .versions

/-- The key that a statement writes a row under. -/
def ImportStatement.key : ImportStatement β → Option Key
  | .upsertDocument row => some (.documents, row.id)
  | .upsertVersion row => some (.versions, row.id)
  | .setvalDocuments | .setvalVersions => none

/-- `MAX(id)` of a table, over keys. -/
def highestOf (table : KeyTable) (keys : List Key) : Option ℕ :=
  ((keys.filter (·.1 = table)).map Prod.snd).max?

/-- The keys of the rows that the import has written and not committed. -/
def Restore.placed : Restore β → List Key
  | .running _ placed _ => placed
  | _ => []

/-- The key that an insertion has drawn, and those of its rows. -/
def Insertion.keys (insertion : Insertion) : List Key :=
  insertion.drawn.toList ++ insertion.placed

namespace Serials

variable (s : Serials β)

def insertion (id : ℕ) : Option Insertion := s.insertions.find? (·.id = id)

/-- The transaction is over. -/
def remove (id : ℕ) : Serials β := { s with insertions := s.insertions.filter (·.id ≠ id) }

def put (insertion : Insertion) : Serials β :=
  { s with insertions := upsert Insertion.id s.insertions insertion }

/-- The keys of committed rows, and those of the inserts in flight. -/
def inUse : List Key := s.committed ++ s.insertions.flatMap Insertion.keys

def next : SerialAction β → Option (Serials β)
  | .begin id calls =>
    if s.insertions.any (·.id = id) then none
    else some (s.put ⟨id, calls.flatMap InsertCall.tables, none, false, []⟩)
  | .draw id =>
    match s.insertion id with
    | some ⟨id, table :: rest, none, _, placed⟩ =>
      let late := match s.restore with
        | .returned => true
        | _ => false
      let serial := s.last table + 1
      some ({ s with last := Function.update s.last table serial }.put
        ⟨id, rest, some (table, serial), late, placed⟩)
    | _ => none
  | .place id =>
    match s.insertion id with
    | some ⟨id, rest, some key, late, placed⟩ =>
      if key ∈ s.committed then some (s.remove id)
      -- another transaction has the key: the statement waits for its end
      else if s.insertions.any (fun other => other.id ≠ id ∧ key ∈ other.placed) ∨
          key ∈ s.restore.placed then none
      else some (s.put ⟨id, rest, none, late, key :: placed⟩)
    | _ => none
  | .commit id =>
    match s.insertion id with
    | some ⟨id, [], none, _, placed⟩ =>
      some { s.remove id with committed := placed ++ s.committed }
    | _ => none
  | .rollback id => some (s.remove id)
  | .delete key => some { s with committed := s.committed.filter (· ≠ key) }
  | .startRestore payload =>
    match s.restore with
    | .notStarted => some { s with restore := .running payload.statements [] none }
    | _ => none
  | .restoreStatement =>
    match s.restore with
    | .running (statement :: rest) placed none =>
      match statement.key with
      | some key =>
        if s.insertions.any (key ∈ ·.placed) then none
        else some { s with restore := .running rest (key :: placed) none }
      | none =>
        let highest := (highestOf statement.table (placed ++ s.committed)).getD
          (s.last statement.table)
        some { s with restore := .running (statement :: rest) placed highest }
    | .running (statement :: rest) placed (some highest) =>
      some { s with
        last := Function.update s.last statement.table highest
        restore := .running rest placed none }
    | _ => none
  | .commitRestore =>
    match s.restore with
    | .running [] placed none => some { s with
        committed := placed ++ s.committed
        restore := .returned }
    | _ => none
  | .abortRestore =>
    match s.restore with
    | .running _ _ _ => some { s with restore := .returned }
    | _ => none

/-- What a `setval` carries when it resets a sequence is no less than any key in use then. -/
def covers : SerialAction β → Bool
  | .restoreStatement =>
    match s.restore with
    | .running (statement :: _) _ (some highest) =>
      s.inUse.all fun key => key.1 ≠ statement.table ∨ key.2 ≤ highest
    | _ => true
  | _ => true

/-- The key that an insert has drawn is the key of a row of another transaction. -/
def Collides (insertion : Insertion) : Prop :=
  ∃ key, insertion.drawn = some key ∧ (key ∈ s.committed ∨
    ∃ other ∈ s.insertions, other.id ≠ insertion.id ∧ key ∈ other.placed)

end Serials

namespace Tables

variable (t : Tables β)

/-- The keys of the rows. -/
def keys : List Key :=
  t.documents.map (.documents, ·.id) ++ t.versions.map (.versions, ·.id)

/-- The last values of the sequences. -/
def last : KeyTable → ℕ
  | .documents => t.documentSeq
  | .versions => t.versionSeq

/-- The store when nothing is in flight. -/
def serials : Serials β where
  committed := t.keys
  last := t.last
  insertions := []
  restore := .notStarted

end Tables

/-- The runs of an import among creates and saves, from valid tables. -/
def restores (β : Type) : System (Serials β) (SerialAction β) where
  init s := ∃ t : Tables β, t.Valid ∧ s = t.serials
  step s action s' := s.next action = some s'

/-- What a `setval` carries covers every key in use. -/
def Covers (s : Serials β) (action : SerialAction β) : Prop := s.covers action = true

/-! ## What a statement does to the tables it does to their keys -/

section Tables

variable {t t' : Tables β}

theorem mem_keys {key : Key} : key ∈ t.keys ↔
    (key.1 = .documents ∧ ∃ d ∈ t.documents, d.id = key.2) ∨
      (key.1 = .versions ∧ ∃ v ∈ t.versions, v.id = key.2) := by
  obtain ⟨table, id⟩ := key
  cases table <;> simp [Tables.keys]

theorem Tables.Valid.keys_le (h : t.Valid) {key : Key} (hkey : key ∈ t.keys) :
    key.2 ≤ t.last key.1 := by
  obtain ⟨htable, d, hd, hid⟩ | ⟨htable, v, hv, hid⟩ := mem_keys.mp hkey
  · rw [htable, ← hid]
    exact h.documentSeq d hd
  · rw [htable, ← hid]
    exact h.versionSeq v hv

theorem mem_upsert_key {ρ : Type} {key : ρ → ℕ} {rows : List ρ} {new : ρ} {id : ℕ} :
    (∃ row ∈ upsert key rows new, key row = id) ↔ key new = id ∨ ∃ row ∈ rows, key row = id := by
  constructor
  · rintro ⟨row, hrow, rfl⟩
    obtain rfl | ⟨hmem, -⟩ := mem_upsert.mp hrow
    · exact .inl rfl
    · exact .inr ⟨row, hmem, rfl⟩
  · rintro (rfl | ⟨row, hrow, rfl⟩)
    · exact ⟨new, mem_upsert.mpr (.inl rfl), rfl⟩
    · by_cases heq : key row = key new
      · exact ⟨new, mem_upsert.mpr (.inl rfl), heq.symm⟩
      · exact ⟨row, mem_upsert.mpr (.inr ⟨hrow, heq⟩), rfl⟩

theorem highestOf_keys (t : Tables β) :
    highestOf .documents t.keys = (t.documents.map DocumentRow.id).max? ∧
      highestOf .versions t.keys = (t.versions.map VersionRecord.id).max? := by
  constructor <;>
    simp [highestOf, Tables.keys, List.filter_append, List.filter_map, Function.comp_def]

theorem le_highestOf {table : KeyTable} {keys : List Key} {key : Key} {default : ℕ}
    (hkey : key ∈ keys) (htable : key.1 = table) :
    key.2 ≤ (highestOf table keys).getD default :=
  le_max Prod.snd (List.mem_filter.mpr ⟨hkey, by simpa using htable⟩)

/-- A statement of the import adds the key it writes, and a `setval` leaves the maximum. -/
theorem execute_keys {statement : ImportStatement β} (h : t.execute statement = .ok t') :
    (∀ key, key ∈ t'.keys ↔ statement.key = some key ∨ key ∈ t.keys) ∧
      t'.last = match statement.key with
        | some _ => t.last
        | none => Function.update t.last statement.table
            ((highestOf statement.table t.keys).getD (t.last statement.table)) := by
  cases statement with
  | upsertDocument row =>
    simp only [Tables.execute, checked] at h
    split at h
    · cases h
    · obtain rfl := Except.ok.inj h
      refine ⟨?_, rfl⟩
      rintro ⟨table, id⟩
      rw [mem_keys, mem_keys]
      simp only [Tables.putDocument, mem_upsert_key, ImportStatement.key, Option.some.injEq,
        Prod.mk.injEq]
      cases table <;> simp
  | upsertVersion row =>
    simp only [Tables.execute, checked] at h
    split at h
    · cases h
    · obtain rfl := Except.ok.inj h
      refine ⟨?_, rfl⟩
      rintro ⟨table, id⟩
      rw [mem_keys, mem_keys]
      simp only [Tables.putVersion, mem_upsert_key, ImportStatement.key, Option.some.injEq,
        Prod.mk.injEq]
      cases table <;> simp
  | setvalDocuments =>
    obtain rfl := Except.ok.inj h
    refine ⟨fun key => by simp [mem_keys, ImportStatement.key], funext fun table => ?_⟩
    simp only [ImportStatement.key, ImportStatement.table, (highestOf_keys t).1]
    cases table <;> simp [Tables.last]
  | setvalVersions =>
    obtain rfl := Except.ok.inj h
    refine ⟨fun key => by simp [mem_keys, ImportStatement.key], funext fun table => ?_⟩
    simp only [ImportStatement.key, ImportStatement.table, (highestOf_keys t).2]
    cases table <;> simp [Tables.last]

theorem mem_keys_updateDocument {row : ℕ} {f : DocumentRow → DocumentRow}
    (hid : ∀ d, (f d).id = d.id) {key : Key} :
    key ∈ (t.updateDocument row f).keys ↔ key ∈ t.keys := by
  have hids : (t.updateDocument row f).documents.map DocumentRow.id =
      t.documents.map DocumentRow.id := by
    refine List.map_map.trans (List.map_congr_left fun d _ => ?_)
    rw [Function.comp_apply]
    split_ifs
    · exact hid d
    · rfl
  have hmem : (∃ d ∈ (t.updateDocument row f).documents, d.id = key.2) ↔
      ∃ d ∈ t.documents, d.id = key.2 := by
    simp only [← List.mem_map, hids]
  rw [mem_keys, mem_keys, hmem]
  rfl

/-- A create draws a key of each table, and a save one of the versions. -/
theorem apply_keys {call : InsertCall} {op : TableOp β} (h : t.apply op = some t')
    (hcall : (∃ kind name body tags now, op = .create kind name body tags now) ∧ call = .create ∨
      (∃ kind name body tags now, op = .saveVersion kind name body tags now) ∧
        call = .saveVersion) :
    (∀ key, key ∈ t'.keys ↔ (key.1 ∈ call.tables ∧ key.2 = t.last key.1 + 1) ∨ key ∈ t.keys) ∧
      ∀ table, t'.last table = if table ∈ call.tables then t.last table + 1 else t.last table := by
  obtain ⟨⟨kind, name, body, tags, now, rfl⟩, rfl⟩ | ⟨⟨kind, name, body, tags, now, rfl⟩, rfl⟩ :=
    hcall
  · simp only [Tables.apply] at h
    split at h
    · cases h
    · obtain rfl := Option.some.inj h
      refine ⟨?_, fun table => ?_⟩
      · rintro ⟨table, id⟩
        rw [mem_keys, mem_keys]
        cases table <;> simp [Tables.insertVersion, InsertCall.tables, Tables.last, eq_comm]
      · cases table <;> rfl
  · simp only [Tables.apply] at h
    split at h
    · cases h
    · split at h
      · cases h
      · obtain rfl := Option.some.inj h
        refine ⟨?_, fun table => ?_⟩
        · rintro ⟨table, id⟩
          refine (mem_keys_updateDocument (by intro d; rfl)).trans ?_
          rw [mem_keys, mem_keys]
          cases table <;> simp [Tables.insertVersion, InsertCall.tables, Tables.last, eq_comm]
        · cases table <;> rfl

end Tables

/-! ## Keys drawn after the import -/

/-- A `setval` of the table is left. -/
def Resets (rest : List (ImportStatement β)) (table : KeyTable) : Prop :=
  ∃ statement ∈ rest, statement.key = none ∧ statement.table = table

/-- Every statement that writes a key has a `setval` of its table after it. -/
def Closed : List (ImportStatement β) → Prop
  | [] => True
  | statement :: rest => (statement.key ≠ none → Resets rest statement.table) ∧ Closed rest

theorem closed_map_append {ρ : Type} {f : ρ → ImportStatement β} {rows : List ρ}
    {rest : List (ImportStatement β)} (table : KeyTable) (htable : ∀ row, (f row).table = table)
    (hresets : rows ≠ [] → Resets rest table) (hrest : Closed rest) :
    Closed (rows.map f ++ rest) := by
  induction rows with
  | nil => exact hrest
  | cons row rows ih =>
    obtain ⟨reset, hmem, hreset⟩ := hresets (List.cons_ne_nil row rows)
    refine ⟨fun _ => ⟨reset, List.mem_append_right _ hmem, hreset.1, ?_⟩,
      ih fun _ => ⟨reset, hmem, hreset⟩⟩
    rw [hreset.2, htable row]

theorem closed_statements (payload : Payload β) : Closed payload.statements := by
  unfold Payload.statements
  rw [List.append_assoc, List.append_assoc]
  refine closed_map_append .documents (fun _ => rfl) (fun hne => ?_)
    (closed_map_append .versions (fun _ => rfl) (fun hne => ?_) ?_)
  · exact ⟨.setvalDocuments, by simp [hne], rfl, rfl⟩
  · exact ⟨.setvalVersions, by simp [hne], rfl, rfl⟩
  · split_ifs <;> simp [Closed, ImportStatement.key]

namespace Serials

/-- The keys that the import has written are within its sequences, or will be. -/
structure Settling (last : KeyTable → ℕ) (rest : List (ImportStatement β)) (placed : List Key)
    (highest : Option ℕ) : Prop where
  closed : Closed rest
  written : ∀ key ∈ placed, key.2 ≤ last key.1 ∨ Resets rest key.1
  highest : ∀ value, highest = some value → ∃ statement after, rest = statement :: after ∧
    statement.key = none ∧ ∀ key ∈ placed, key.1 = statement.table → key.2 ≤ value

/-- Every key in use is within its sequence, and one drawn after the import is no other's. -/
structure Sound (s : Serials β) : Prop where
  inUse : ∀ key ∈ s.inUse, key.2 ≤ s.last key.1
  settling : ∀ rest placed highest, s.restore = .running rest placed highest →
    Settling s.last rest placed highest
  late : ∀ insertion ∈ s.insertions, insertion.late = true → s.restore = .returned
  free : ∀ insertion ∈ s.insertions, insertion.late = true → ∀ key, insertion.drawn = some key →
    key ∉ s.committed ∧ ∀ other ∈ s.insertions, other.id ≠ insertion.id → key ∉ other.keys

variable {s s' : Serials β}

theorem mem_inUse {key : Key} : key ∈ s.inUse ↔
    key ∈ s.committed ∨ ∃ insertion ∈ s.insertions, key ∈ insertion.keys := by
  simp [inUse]

theorem mem_put {new insertion : Insertion} : insertion ∈ (s.put new).insertions ↔
    insertion = new ∨ (insertion ∈ s.insertions ∧ insertion.id ≠ new.id) := mem_upsert

theorem mem_remove {id : ℕ} {insertion : Insertion} : insertion ∈ (s.remove id).insertions ↔
    insertion ∈ s.insertions ∧ insertion.id ≠ id := by
  simp [remove]

theorem mem_of_insertion {id : ℕ} {insertion : Insertion} (h : s.insertion id = some insertion) :
    insertion ∈ s.insertions ∧ insertion.id = id :=
  ⟨List.mem_of_find?_eq_some h, by simpa using List.find?_some h⟩

namespace Sound

theorem of_tables {t : Tables β} (h : t.Valid) : t.serials.Sound where
  inUse key hkey := by
    obtain hkey | ⟨_, hmem, -⟩ := mem_inUse.mp hkey
    · exact h.keys_le hkey
    · cases hmem
  settling _ _ _ heq := by cases heq
  late _ hmem := by cases hmem
  free _ hmem := by cases hmem

/-- A sequence that goes on. -/
theorem raise (h : s.Sound) {last : KeyTable → ℕ} (hlast : ∀ table, s.last table ≤ last table) :
    Sound { s with last } where
  inUse key hkey := (h.inUse key hkey).trans (hlast key.1)
  settling rest placed highest heq := by
    obtain ⟨hclosed, hplaced, hhighest⟩ := h.settling rest placed highest heq
    exact ⟨hclosed, fun key hkey => (hplaced key hkey).imp_left fun hle => hle.trans (hlast _),
      hhighest⟩
  late := h.late
  free := h.free

theorem put (h : s.Sound) {new : Insertion} (hkeys : ∀ key ∈ new.keys, key.2 ≤ s.last key.1)
    (hlate : new.late = true → s.restore = .returned)
    (hfree : new.late = true → ∀ key, new.drawn = some key → key ∉ s.committed ∧
      ∀ other ∈ s.insertions, other.id ≠ new.id → key ∉ other.keys)
    (hothers : ∀ other ∈ s.insertions, other.id ≠ new.id → other.late = true →
      ∀ key, other.drawn = some key → key ∉ new.keys) : (s.put new).Sound where
  inUse key hkey := by
    obtain hkey | ⟨insertion, hmem, hkey⟩ := mem_inUse.mp hkey
    · exact h.inUse key (mem_inUse.mpr (.inl hkey))
    · obtain rfl | ⟨hold, -⟩ := mem_put.mp hmem
      · exact hkeys key ‹_›
      · exact h.inUse key (mem_inUse.mpr (.inr ⟨insertion, hold, ‹_›⟩))
  settling := h.settling
  late insertion hmem := by
    obtain rfl | ⟨hmem, -⟩ := mem_put.mp hmem
    · exact hlate
    · exact h.late insertion hmem
  free insertion hmem hflag key hdrawn := by
    obtain rfl | ⟨hmem, hne⟩ := mem_put.mp hmem
    · refine ⟨(hfree hflag key hdrawn).1, fun other hother hid => ?_⟩
      obtain rfl | ⟨hother, -⟩ := mem_put.mp hother
      · exact absurd rfl hid
      · exact (hfree hflag key hdrawn).2 other hother hid
    · obtain ⟨hcommitted, hkept⟩ := h.free insertion ‹_› hflag key hdrawn
      refine ⟨hcommitted, fun other hother hid => ?_⟩
      obtain rfl | ⟨hother, -⟩ := mem_put.mp hother
      · exact hothers insertion ‹_› hne hflag key hdrawn
      · exact hkept other hother hid

/-- The end of a transaction, whose rows are committed or not. -/
theorem remove (h : s.Sound) {id : ℕ} (rows : List Key)
    (hrows : ∀ key ∈ rows, ∃ insertion ∈ s.insertions, insertion.id = id ∧ key ∈ insertion.keys) :
    Sound { s.remove id with committed := rows ++ s.committed } where
  inUse key hkey := by
    refine h.inUse key (mem_inUse.mpr ?_)
    obtain hkey | ⟨insertion, hmem, hkey⟩ := mem_inUse.mp hkey
    · obtain hkey | hkey := List.mem_append.mp hkey
      · obtain ⟨insertion, hmem, -, hkey⟩ := hrows key hkey
        exact .inr ⟨insertion, hmem, hkey⟩
      · exact .inl hkey
    · exact .inr ⟨insertion, (mem_remove.mp hmem).1, hkey⟩
  settling := h.settling
  late insertion hmem := h.late insertion (mem_remove.mp hmem).1
  free insertion hmem hflag key hdrawn := by
    obtain ⟨hmem, hne⟩ := mem_remove.mp hmem
    obtain ⟨hcommitted, hothers⟩ := h.free insertion hmem hflag key hdrawn
    refine ⟨fun hkey => ?_, fun other hother => hothers other (mem_remove.mp hother).1⟩
    obtain hrow | hold := List.mem_append.mp hkey
    · obtain ⟨other, hother, rfl, hheld⟩ := hrows key hrow
      exact hothers other hother hne.symm hheld
    · exact hcommitted hold

/-- A key that a statement draws. -/
theorem draw (h : s.Sound) {old : Insertion} (hmem : old ∈ s.insertions) {table : KeyTable}
    {rest : List KeyTable} {late : Bool} (hlate : late = true → s.restore = .returned) :
    Sound ({ s with last := Function.update s.last table (s.last table + 1) }.put
      ⟨old.id, rest, some (table, s.last table + 1), late, old.placed⟩) := by
  have hlast : ∀ other, s.last other ≤ Function.update s.last table (s.last table + 1) other := by
    intro other
    obtain rfl | hne := eq_or_ne other table
    · rw [Function.update_self]
      exact Nat.le_succ _
    · rw [Function.update_of_ne hne]
  have hnew : (table, s.last table + 1) ∉ s.inUse := fun hin => by
    have := h.inUse _ hin
    simp only at this
    omega
  have hplaced : ∀ key ∈ old.placed, key ∈ old.keys := fun key hkey => by
    simp [Insertion.keys, hkey]
  refine (h.raise hlast).put (fun key hkey => ?_) hlate (fun _ key hdrawn => ?_)
    fun other hother hne hflag key hdrawn hkey => ?_
  · obtain heq | hkey : key = (table, s.last table + 1) ∨ key ∈ old.placed := by
      simpa [Insertion.keys] using hkey
    · subst heq
      simp
    · exact (h.inUse key (mem_inUse.mpr (.inr ⟨old, hmem, hplaced key hkey⟩))).trans (hlast _)
  · obtain rfl := Option.some.inj hdrawn
    exact ⟨fun hin => hnew (mem_inUse.mpr (.inl hin)), fun other hother _ hin =>
      hnew (mem_inUse.mpr (.inr ⟨other, hother, hin⟩))⟩
  · obtain heq | hkey : key = (table, s.last table + 1) ∨ key ∈ old.placed := by
      simpa [Insertion.keys] using hkey
    · subst heq
      exact hnew (mem_inUse.mpr (.inr ⟨other, hother, by simp [Insertion.keys, hdrawn]⟩))
    · exact (h.free other hother hflag key hdrawn).2 old hmem (Ne.symm hne) (hplaced key hkey)

/-- The row of a drawn key. -/
theorem place (h : s.Sound) {old : Insertion} (hmem : old ∈ s.insertions) {key : Key}
    (hdrawn : old.drawn = some key) :
    (s.put ⟨old.id, old.rest, none, old.late, key :: old.placed⟩).Sound := by
  have hkeys : ∀ key', key' ∈ Insertion.keys ⟨old.id, old.rest, none, old.late, key :: old.placed⟩ →
      key' ∈ old.keys := fun key' hkey' => by
    simpa [Insertion.keys, hdrawn] using hkey'
  refine h.put (fun key' hkey' => h.inUse key' (mem_inUse.mpr (.inr ⟨old, hmem, hkeys key' hkey'⟩)))
    (h.late old hmem) (fun _ key' hnone => by cases hnone)
    fun other hother hne hflag key' hdrawn' hkey' => ?_
  exact (h.free other hother hflag key' hdrawn').2 old hmem (Ne.symm hne) (hkeys key' hkey')

/-- Fewer committed rows, or another state of an import that had not returned. -/
theorem running (h : s.Sound) (hrunning : s.restore ≠ .returned) {committed : List Key}
    {last : KeyTable → ℕ} {restore : Restore β}
    (hinUse : ∀ key ∈ { s with committed }.inUse, key.2 ≤ last key.1)
    (hsettling : ∀ rest placed highest, restore = .running rest placed highest →
      Settling last rest placed highest) :
    Sound { s with committed, last, restore } where
  inUse := hinUse
  settling := hsettling
  late insertion hmem hflag := absurd (h.late insertion hmem hflag) hrunning
  free insertion hmem hflag := absurd (h.late insertion hmem hflag) hrunning

theorem delete (h : s.Sound) {key : Key} :
    Sound { s with committed := s.committed.filter (· ≠ key) } where
  inUse key' hkey' := by
    refine h.inUse key' (mem_inUse.mpr ?_)
    exact (mem_inUse.mp hkey').imp_left fun hmem => (List.mem_filter.mp hmem).1
  settling := h.settling
  late := h.late
  free insertion hmem hflag key' hdrawn := by
    obtain ⟨hcommitted, hothers⟩ := h.free insertion hmem hflag key' hdrawn
    exact ⟨fun hin => hcommitted (List.mem_filter.mp hin).1, hothers⟩

theorem restoreStatement (h : s.Sound) (hcovers : s.covers .restoreStatement = true)
    (hnext : s.next .restoreStatement = some s') : s'.Sound := by
  cases hrestore : s.restore with
  | notStarted =>
    simp only [next, hrestore] at hnext
    cases hnext
  | returned =>
    simp only [next, hrestore] at hnext
    cases hnext
  | running rest placed highest =>
    have hrunning : s.restore ≠ .returned := fun heq => by
      rw [hrestore] at heq
      cases heq
    obtain ⟨hclosed, hwritten, hhighest⟩ := h.settling rest placed highest hrestore
    cases rest with
    | nil =>
      simp only [next, hrestore] at hnext
      cases hnext
    | cons statement rest =>
      cases highest with
      | some value =>
        simp only [next, hrestore, Option.some.injEq] at hnext
        obtain rfl := hnext
        obtain ⟨_, _, heq, -, hplaced⟩ := hhighest value rfl
        obtain ⟨rfl, rfl⟩ := List.cons.inj heq
        simp only [covers, hrestore, List.all_eq_true, decide_eq_true_eq] at hcovers
        refine h.running hrunning (fun key hkey => ?_) ?_
        · by_cases htable : key.1 = statement.table
          · rw [htable, Function.update_self]
            exact (hcovers key hkey).resolve_left (not_not_intro htable)
          · rw [Function.update_of_ne htable]
            exact h.inUse key hkey
        · rintro _ _ _ ⟨⟩
          refine ⟨hclosed.2, fun key hkey => ?_, fun _ heq => by cases heq⟩
          by_cases htable : key.1 = statement.table
          · rw [htable, Function.update_self]
            exact .inl (hplaced key hkey htable)
          · rw [Function.update_of_ne htable]
            refine (hwritten key hkey).imp_right ?_
            rintro ⟨reset, hmem, hnone, hreset⟩
            obtain rfl | hmem := List.mem_cons.mp hmem
            · exact absurd hreset.symm htable
            · exact ⟨reset, hmem, hnone, hreset⟩
      | none =>
        cases hkey : statement.key with
        | some key =>
          simp only [next, hrestore, hkey, Option.ite_none_left_eq_some, Option.some.injEq] at hnext
          obtain ⟨-, rfl⟩ := hnext
          refine h.running hrunning h.inUse ?_
          rintro _ _ _ ⟨⟩
          have htable : key.1 = statement.table := by
            cases statement <;> cases hkey <;> rfl
          refine ⟨hclosed.2, fun key' hkey' => ?_, fun _ heq => by cases heq⟩
          obtain rfl | hold := List.mem_cons.mp hkey'
          · exact .inr (htable ▸ hclosed.1 (by simp [hkey]))
          · refine (hwritten key' hold).imp_right ?_
            rintro ⟨reset, hmem, hnone, hreset⟩
            obtain rfl | hmem := List.mem_cons.mp hmem
            · rw [hkey] at hnone
              cases hnone
            · exact ⟨reset, hmem, hnone, hreset⟩
        | none =>
          simp only [next, hrestore, hkey, Option.some.injEq] at hnext
          obtain rfl := hnext
          refine h.running hrunning h.inUse ?_
          rintro _ _ _ ⟨⟩
          refine ⟨hclosed, hwritten, fun value heq => ⟨statement, rest, rfl, hkey,
            fun key hplaced htable => ?_⟩⟩
          obtain rfl := Option.some.inj heq
          exact le_highestOf (List.mem_append_left _ hplaced) htable

theorem next (h : s.Sound) {action : SerialAction β} (hcovers : s.covers action = true)
    (hnext : s.next action = some s') : s'.Sound := by
  cases action with
  | begin id calls =>
    simp only [Serials.next, Option.ite_none_left_eq_some, Option.some.injEq] at hnext
    obtain ⟨-, rfl⟩ := hnext
    exact h.put (fun _ hkey => by simp [Insertion.keys] at hkey) (fun hlate => by cases hlate)
      (fun hlate => by cases hlate) fun _ _ _ _ _ _ hkey => by simp [Insertion.keys] at hkey
  | draw id =>
    simp only [Serials.next] at hnext
    split at hnext
    · next hfound =>
      obtain rfl := Option.some.inj hnext
      refine h.draw (mem_of_insertion hfound).1 fun hlate => ?_
      split at hlate
      · assumption
      · cases hlate
    · cases hnext
  | place id =>
    simp only [Serials.next] at hnext
    split at hnext
    · next hfound =>
      split_ifs at hnext
      · obtain rfl := Option.some.inj hnext
        exact h.remove [] fun _ hkey => by cases hkey
      · obtain rfl := Option.some.inj hnext
        exact h.place (mem_of_insertion hfound).1 rfl
    · cases hnext
  | commit id =>
    simp only [Serials.next] at hnext
    split at hnext
    · next hfound =>
      obtain rfl := Option.some.inj hnext
      have hmem := (mem_of_insertion hfound).1
      exact h.remove _ fun key hkey => ⟨_, hmem, rfl, by simpa [Insertion.keys] using hkey⟩
    · cases hnext
  | rollback id =>
    obtain rfl := Option.some.inj hnext
    exact h.remove [] fun _ hkey => by cases hkey
  | delete key =>
    obtain rfl := Option.some.inj hnext
    exact h.delete
  | startRestore payload =>
    simp only [Serials.next] at hnext
    split at hnext
    · next hrestore =>
      obtain rfl := Option.some.inj hnext
      refine h.running (by rw [hrestore]; exact fun heq => by cases heq) h.inUse ?_
      rintro _ _ _ ⟨⟩
      exact ⟨closed_statements payload, fun _ hkey => (by cases hkey), fun _ heq => by cases heq⟩
    · cases hnext
  | restoreStatement => exact h.restoreStatement hcovers hnext
  | commitRestore =>
    simp only [Serials.next] at hnext
    split at hnext
    · next placed hrestore =>
      obtain rfl := Option.some.inj hnext
      refine h.running (by rw [hrestore]; exact fun heq => by cases heq) (fun key hkey => ?_)
        fun _ _ _ heq => by cases heq
      obtain hkey | hkey := mem_inUse.mp hkey
      · obtain hplaced | hkey := List.mem_append.mp hkey
        · obtain hle | ⟨reset, hmem, -⟩ := (h.settling _ _ _ hrestore).written key hplaced
          · exact hle
          · cases hmem
        · exact h.inUse key (mem_inUse.mpr (.inl hkey))
      · exact h.inUse key (mem_inUse.mpr (.inr hkey))
    · cases hnext
  | abortRestore =>
    simp only [Serials.next] at hnext
    split at hnext
    · next hrestore =>
      obtain rfl := Option.some.inj hnext
      exact h.running (by rw [hrestore]; exact fun heq => by cases heq) h.inUse
        fun _ _ _ heq => by cases heq
    · cases hnext

theorem of_reachable (h : ((restores β).when Covers).Reachable s) : s.Sound := by
  refine h.invariant (p := fun s : Serials β => s.Sound) ?_ ?_
  · rintro s ⟨t, hvalid, rfl⟩
    exact of_tables hvalid
  · rintro s action s' hsound ⟨hcovers, hnext⟩
    exact hsound.next hcovers hnext

/-- A key drawn after the import is the key of no other's row. -/
theorem not_collides (h : s.Sound) {insertion : Insertion} (hmem : insertion ∈ s.insertions)
    (hlate : insertion.late = true) : ¬s.Collides insertion := by
  rintro ⟨key, hdrawn, htaken⟩
  obtain ⟨hcommitted, hothers⟩ := h.free insertion hmem hlate key hdrawn
  obtain hkey | ⟨other, hother, hne, hkey⟩ := htaken
  · exact hcommitted hkey
  · exact hothers other hother hne (by simp [Insertion.keys, hkey])

end Sound

end Serials

/-! ## The restore -/

/-- A store with one preset. -/
def onePreset (name body : String) : Tables String :=
  ⟨[⟨1, "preset", name, 1, true, "2026-01-01"⟩], [⟨1, 1, 1, body, [], "2026-01-01"⟩], 1, 1⟩

theorem onePreset_reachable (name body : String) :
    (tableOperations String).Reachable (onePreset name body) := by
  have hcreate : Tables.apply ⟨[], [], 0, 0⟩ (.create "preset" name body [] "2026-01-01") =
      some (onePreset name body) := rfl
  exact (System.Reachable.of_init (S := tableOperations String) rfl).tail hcreate

/-- A save begins while an import of the same store runs, and a create after it. -/
def quietRun : List (SerialAction String) :=
  [.startRestore (exportVersionedDocuments (onePreset "a" "x")), .begin 1 [.saveVersion],
    .restoreStatement, .restoreStatement, .restoreStatement, .restoreStatement, .restoreStatement,
    .restoreStatement, .commitRestore, .draw 1, .place 1, .commit 1, .begin 2 [.create], .draw 2]

/-- A create that is in flight while the import reads the maximum. -/
def overtakenRun : List (SerialAction String) :=
  [.begin 1 [.create], .draw 1, .place 1,
    .startRestore (exportVersionedDocuments (onePreset "a" "x")), .restoreStatement,
    .restoreStatement, .restoreStatement, .restoreStatement, .restoreStatement, .restoreStatement,
    .commitRestore, .draw 1, .place 1, .commit 1, .begin 2 [.create], .draw 2]

end TaiSkeleton.Versioning
