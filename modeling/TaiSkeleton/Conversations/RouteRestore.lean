import TaiSkeleton.Conversations.RouteClaims
import TaiSkeleton.Lib.Except

/-!
# The restore of the conversation routes

`import_conversation_routes` takes the rows of a payload in their order. A row that is invalid,
whose key is refused or whose pair another row holds is skipped, and any other replaces the row of
its name; the claims follow the rows onto their pairs and off them.
-/

namespace TaiSkeleton.Conversations

open Lib

/-- What `assert_usable` makes of the key of a row. -/
inductive KeyCheck where
  | usable
  /-- An `ExecutionKeyAuthorityError` or a `TokenFreeConditionError`. -/
  | refused (message : Text)
  | raises
deriving DecidableEq

/-- An item of the payload: the name that it gives, and what the validation and the check of its key
make of it. -/
structure PayloadRow where
  routeName : Option Text
  route : Except Text Route
  key : KeyCheck

/-- The errors of the report. -/
inductive RowError where
  | invalid (routeName : Option Text) (message : Text)
  | unusable (routeName : Text) (message : Text)
  | alreadyRouted (routeName : Text) (pair? : Option Pair) (holder : Option Text)
deriving DecidableEq

structure SectionReport where
  created : ℕ
  updated : ℕ
  skipped : ℕ
  errors : List RowError
  /-- The routes whose new secret is shown. -/
  newCallbackSecrets : List Text
deriving DecidableEq

namespace SectionReport

def empty : SectionReport := ⟨0, 0, 0, [], []⟩

/-- How many rows have been reported. -/
def total (report : SectionReport) : ℕ := report.created + report.updated + report.skipped

end SectionReport

/-- Where a restore stands. -/
structure Restore where
  table : RouteTable
  claimed : Claimed
  report : SectionReport

namespace Restore

variable (s : Restore)

def skip (error : RowError) : Restore :=
  { s with report := { s.report with
    errors := s.report.errors ++ [error]
    skipped := s.report.skipped + 1 } }

/-- The row is stored, and counted by the names that were there before the restore. -/
def put (existing : List Text) (route : Route) (pair? : Option Pair) : Restore where
  table := s.table.put route
  claimed := s.claimed.move route.routeName pair?
  report := { s.report with
    created := if route.routeName ∈ existing then s.report.created else s.report.created + 1
    updated := if route.routeName ∈ existing then s.report.updated + 1 else s.report.updated
    newCallbackSecrets := if route.door = .api then
      s.report.newCallbackSecrets ++ [route.routeName] else s.report.newCallbackSecrets }

/-- A round of the loop. An exception leaves the table as it stands. -/
def restoreRow (existing : List Text) (s : Restore) (row : PayloadRow) :
    Except RouteTable Restore :=
  match row.route with
  | .error message => .ok (s.skip (.invalid row.routeName message))
  | .ok route =>
    match row.key with
    | .refused message => .ok (s.skip (.unusable route.routeName message))
    | .raises => .error s.table
    | .usable =>
      match route.channelIdentity with
      | none => .error s.table
      | some pair? =>
        if s.claimed.refuses route.routeName pair? then
          .ok (s.skip (.alreadyRouted route.routeName pair? (pair?.bind s.claimed)))
        else .ok (s.put existing route pair?)

/-- The rounds over the rows of a payload. -/
def restoreRows (existing : List Text) (s : Restore) (rows : List PayloadRow) :
    Except RouteTable Restore :=
  rows.foldlM (restoreRow existing) s

end Restore

/-- `import_conversation_routes` over a list of rows: the table and the report, or the table that an
exception leaves. -/
def importConversationRoutes (table : RouteTable) (rows : List PayloadRow) :
    Except RouteTable (RouteTable × SectionReport) :=
  if rows = [] then .ok (table, .empty)
  else
    match Claimed.ofRows table.rows with
    | none => .error table
    | some claimed =>
      (Restore.restoreRows (table.rows.map Route.routeName) ⟨table, claimed, .empty⟩ rows).map
        fun s => (s.table, s.report)

/-! ## A round -/

namespace Restore

/-- The claims follow a table without conflicts. -/
structure Sound (s : Restore) : Prop where
  unambiguous : Unambiguous s.table.rows
  covers : s.claimed.Covers s.table.rows

variable {s s' : Restore} {existing : List Text} {row : PayloadRow}

/-- A round skips its row, or stores it. -/
theorem restoreRow_spec (h : s.restoreRow existing row = .ok s') :
    (∃ error, s' = s.skip error) ∨ ∃ route pair?, route.channelIdentity = some pair? ∧
      s.claimed.judge true (some route) = .writes route ∧ s' = s.put existing route pair? := by
  unfold restoreRow at h
  split at h
  · exact .inl ⟨_, (Except.ok.inj h).symm⟩
  · next route _ =>
    split at h
    · exact .inl ⟨_, (Except.ok.inj h).symm⟩
    · cases h
    · split at h
      · cases h
      · next pair? hpair =>
        split_ifs at h with hrefuses
        · exact .inl ⟨_, (Except.ok.inj h).symm⟩
        · refine .inr ⟨route, pair?, hpair, ?_, (Except.ok.inj h).symm⟩
          simp only [Claimed.judge, if_true, hpair]
          exact if_neg hrefuses

/-- Why a round may raise. -/
theorem restoreRow_error {left : RouteTable} (h : s.restoreRow existing row = .error left) :
    left = s.table ∧ ∃ route, row.route = .ok route ∧
      (row.key = .raises ∨ route.channelIdentity = none) := by
  unfold restoreRow at h
  split at h
  · cases h
  · next route hroute =>
    split at h
    · cases h
    · next hkey => exact ⟨(Except.error.inj h).symm, route, hroute, .inl hkey⟩
    · split at h
      · next hnone => exact ⟨(Except.error.inj h).symm, route, hroute, .inr hnone⟩
      · split_ifs at h

theorem total_skip (error : RowError) : (s.skip error).report.total = s.report.total + 1 := by
  simp only [SectionReport.total, skip]
  omega

theorem total_put (existing : List Text) (route : Route) (pair? : Option Pair) :
    (s.put existing route pair?).report.total = s.report.total + 1 := by
  simp only [SectionReport.total, put]
  split_ifs <;> omega

/-- A row that is reported as skipped leaves the table as it is. -/
theorem table_of_skipped (h : s.restoreRow existing row = .ok s')
    (hskipped : s.report.skipped < s'.report.skipped) : s'.table = s.table := by
  obtain ⟨error, rfl⟩ | ⟨route, pair?, -, -, rfl⟩ := restoreRow_spec h
  · rfl
  · exact absurd hskipped (lt_irrefl _)

theorem Sound.restoreRow (hs : s.Sound) (h : s.restoreRow existing row = .ok s') :
    s'.Sound ∧ s'.report.total = s.report.total + 1 := by
  obtain ⟨error, rfl⟩ | ⟨route, pair?, hpair, hwrites, rfl⟩ := restoreRow_spec h
  · exact ⟨⟨hs.unambiguous, hs.covers⟩, total_skip error⟩
  · refine ⟨⟨hs.unambiguous.put fun pair hclaims row hrow hother hrowclaims => ?_, ?_⟩,
      total_put existing route pair?⟩
    · have hholder := hs.covers row hrow pair hrowclaims
      exact hother (Claimed.holder_of_writes hwrites hclaims hholder)
    · have hmoved := hs.covers.move hwrites
      rwa [hpair, Option.getD_some] at hmoved

/-! ## The whole payload -/

theorem Sound.restoreRows {rows : List PayloadRow} (hs : s.Sound)
    (h : s.restoreRows existing rows = .ok s') :
    s'.Sound ∧ s'.report.total = s.report.total + rows.length := by
  induction rows generalizing s with
  | nil =>
    obtain rfl := Except.ok.inj h
    exact ⟨hs, rfl⟩
  | cons row rows ih =>
    rw [Restore.restoreRows, List.foldlM_cons] at h
    obtain ⟨next, hrow, hrows⟩ := bind_eq_ok.mp h
    obtain ⟨hnext, htotal⟩ := hs.restoreRow hrow
    obtain ⟨hdone, hrest⟩ := ih hnext hrows
    refine ⟨hdone, ?_⟩
    rw [hrest, htotal, List.length_cons]
    omega

theorem Sound.restoreRows_error {rows : List PayloadRow} {left : RouteTable} (hs : s.Sound)
    (h : s.restoreRows existing rows = .error left) :
    Unambiguous left.rows ∧ ∃ row ∈ rows, ∃ route, row.route = .ok route ∧
      (row.key = .raises ∨ route.channelIdentity = none) := by
  induction rows generalizing s with
  | nil => cases h
  | cons row rows ih =>
    rw [Restore.restoreRows, List.foldlM_cons] at h
    obtain hrow | ⟨next, hrow, hrows⟩ := bind_eq_error.mp h
    · obtain ⟨rfl, hwhy⟩ := restoreRow_error hrow
      exact ⟨hs.unambiguous, row, List.mem_cons_self, hwhy⟩
    · obtain ⟨hleft, row', hmem, hwhy⟩ := ih (hs.restoreRow hrow).1 hrows
      exact ⟨hleft, row', List.mem_cons_of_mem _ hmem, hwhy⟩

end Restore

/-- The claims of a table cannot be read where one of its identities is blank. -/
theorem exists_of_ofRows_eq_none {rows : List Route} {start : Claimed}
    (h : rows.foldlM (fun claimed row => row.channelIdentity.map fun
      | none => claimed
      | some pair => Function.update claimed pair (some row.routeName)) start = none) :
    ∃ row ∈ rows, row.channelIdentity = none := by
  induction rows generalizing start with
  | nil => cases h
  | cons row rows ih =>
    rw [List.foldlM_cons] at h
    cases hpair : row.channelIdentity with
    | none => exact ⟨row, List.mem_cons_self, hpair⟩
    | some pair? =>
      rw [hpair, Option.map_some] at h
      obtain ⟨row', hmem, hnone⟩ := ih h
      exact ⟨row', List.mem_cons_of_mem _ hmem, hnone⟩

/-- A restore onto a table without conflicts leaves one, and reports each row once; what it skips
leaves the table as it is. It raises for a blank identity or by the check of a key alone, and then
too leaves no conflict. -/
theorem unambiguous_of_import {table : RouteTable} (h : Unambiguous table.rows)
    (rows : List PayloadRow) :
    (∀ table' report, importConversationRoutes table rows = .ok (table', report) →
      Unambiguous table'.rows ∧
        report.created + report.updated + report.skipped = rows.length) ∧
    (∀ s s' existing row, Restore.restoreRow existing s row = .ok s' →
      s.report.skipped < s'.report.skipped → s'.table = s.table) ∧
    ∀ left, importConversationRoutes table rows = .error left → Unambiguous left.rows ∧
      ((∃ row ∈ table.rows, row.channelIdentity = none) ∨ ∃ row ∈ rows, ∃ route,
        row.route = .ok route ∧ (row.key = .raises ∨ route.channelIdentity = none)) := by
  have hstart : ∀ {claimed}, Claimed.ofRows table.rows = some claimed →
      Restore.Sound ⟨table, claimed, .empty⟩ := fun hclaimed =>
    ⟨h, Claimed.covers_ofRows h hclaimed⟩
  refine ⟨fun table' report himport => ?_, fun s s' existing row => Restore.table_of_skipped,
    fun left himport => ?_⟩
  · unfold importConversationRoutes at himport
    split_ifs at himport with hempty
    · obtain ⟨rfl, rfl⟩ := Prod.mk.inj (Except.ok.inj himport)
      exact ⟨h, hempty ▸ rfl⟩
    · split at himport
      · cases himport
      · next claimed hclaimed =>
        cases hrows : Restore.restoreRows (table.rows.map Route.routeName)
            ⟨table, claimed, .empty⟩ rows with
        | error left =>
          rw [hrows] at himport
          cases himport
        | ok s =>
          rw [hrows] at himport
          obtain ⟨rfl, rfl⟩ := Prod.mk.inj (Except.ok.inj himport)
          obtain ⟨hsound, htotal⟩ := (hstart hclaimed).restoreRows hrows
          exact ⟨hsound.unambiguous, htotal.trans (Nat.zero_add _)⟩
  · unfold importConversationRoutes at himport
    split_ifs at himport with hempty
    split at himport
    · next hnone =>
      obtain rfl := Except.error.inj himport
      exact ⟨h, .inl (exists_of_ofRows_eq_none hnone)⟩
    · next claimed hclaimed =>
      cases hrows : Restore.restoreRows (table.rows.map Route.routeName)
          ⟨table, claimed, .empty⟩ rows with
      | error left' =>
        rw [hrows] at himport
        obtain rfl := Except.error.inj himport
        exact ((hstart hclaimed).restoreRows_error hrows).imp_right .inr
      | ok s =>
        rw [hrows] at himport
        cases himport

/-- `a` leaves the identity `x` to `b`, which comes after it, and `c` is refused. -/
def movingRows : List PayloadRow :=
  [⟨some ['a'], .ok ⟨['a'], .channel, some ['c'], some ['y']⟩, .usable⟩,
    ⟨some ['b'], .ok ⟨['b'], .channel, some ['c'], some [' ', 'x']⟩, .usable⟩,
    ⟨some ['c'], .ok ⟨['c'], .channel, some ['c'], some ['y']⟩, .usable⟩,
    ⟨some ['d'], .ok ⟨['d'], .api, none, none⟩, .usable⟩, ⟨none, .error [], .usable⟩]

/-- The table before it: `a` holds the identity `x`. -/
def heldTable : RouteTable := ⟨[⟨['a'], .channel, some ['c'], some ['x']⟩], by simp⟩

theorem unambiguous_movingRows : ∃ table' report,
    importConversationRoutes heldTable movingRows = .ok (table', report) ∧
      Unambiguous table'.rows ∧ report.created = 2 ∧ report.updated = 1 ∧
      report.created + report.updated + report.skipped = 5 := by
  have hrun : ∃ table' report, importConversationRoutes heldTable movingRows =
      .ok (table', report) ∧ report.created = 2 ∧ report.updated = 1 := ⟨_, _, rfl, rfl, rfl⟩
  have hheld : Unambiguous heldTable.rows := by
    intro row hrow row' hrow' _ _ _
    rw [List.mem_singleton.mp hrow, List.mem_singleton.mp hrow']
  obtain ⟨table', report, himport, hcreated, hupdated⟩ := hrun
  obtain ⟨hunambiguous, htotal⟩ := (unambiguous_of_import hheld movingRows).1 table' report himport
  exact ⟨table', report, himport, hunambiguous, hcreated, hupdated, htotal⟩

end TaiSkeleton.Conversations
