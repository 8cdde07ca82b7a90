import TaiSkeleton.AccessControl.Middleware

/-!
# What an anonymous caller reaches

The guard serves a request without an identity only where every id that the tiers find is the
public one, or where they find none and a public route or the shell answers. A protected row can
only take such access away.
-/

namespace TaiSkeleton.AccessControl

open Lib App

namespace Verifier

variable {v : Verifier} {store : RouteStore} {table : RouteTable} {path : Path}
  {method : Option String} {version : Option ℕ} {ids : List String}

/-! ## The ids of a path -/

theorem mem_foundIds {id : String} :
    id ∈ v.foundIds table path ↔
      (∃ url ∈ v.matchedUrls table path, fetchRoute table url = some id) ∧ id ≠ "" := by
  simp [foundIds, List.mem_filter, List.mem_filterMap]

theorem mem_grantedIds {id : String} :
    id ∈ v.grantedIds table path ↔
      id ∈ v.foundIds table path ∨ id = v.settings.publicResourceId ∧
        matchesAlwaysPublicRoutePattern v.regexes v.settings path = true := by
  unfold grantedIds
  rw [List.mem_append]
  split_ifs with hp <;> simp [hp]

theorem mem_tableIds {id : String} :
    id ∈ v.tableIds table path ↔ id ∈ v.grantedIds table path ∧
      (isReservedPrefix v.settings path = true → id ≠ v.settings.publicResourceId) := by
  unfold tableIds
  split_ifs with hr
  · simp [hr, List.mem_filter]
  · simp [hr]

theorem fallbackIds_eq_ok (h : v.fallbackIds path method = .ok ids) (hne : ids ≠ []) :
    ids = [v.settings.publicResourceId] ∧ isReservedPrefix v.settings path = false := by
  unfold fallbackIds at h
  split_ifs at h with hreads
  · split at h
    · exact absurd h (by simp)
    · obtain rfl := Except.ok.inj h
      split_ifs at hne ⊢ with hpublic
      · refine ⟨rfl, ?_⟩
        simp only [acknowledgedPublic, spaShell, Bool.or_eq_true, Bool.and_eq_true,
          Bool.not_eq_true'] at hpublic
        rcases hpublic with hp | hp
        · exact hp.2
        · exact hp.2
      · exact absurd rfl hne
  · exact absurd (Except.ok.inj h).symm hne

/-- How a well-formed path outside the always-public prefixes resolves, once the store is read. -/
theorem resolveResourceIds_of_table (hwf : WellFormed path)
    (hpublic : isAlwaysPublicPrefix v.settings (canonical path) = false) {n : ℕ}
    (hversion : store.readVersion version = .ok n) (htable : store.table = .ok table)
    (hcompile : v.patternsCompile table = true) :
    v.resolveResourceIds store path method version =
      if v.tableIds table (canonical path) = [] then v.fallbackIds (canonical path) method
      else .ok (v.tableIds table (canonical path)) := by
  simp only [resolveResourceIds, canonicalizePath_of_wellFormed hwf, hpublic, Bool.false_eq_true,
    if_false, hversion, htable, ok_bind, hcompile, if_true, pure_eq_ok]

/-- What a path that resolves to any id has come through. -/
theorem resolveResourceIds_eq_ok (h : v.resolveResourceIds store path method version = .ok ids)
    (hne : ids ≠ []) :
    WellFormed path ∧
      (isAlwaysPublicPrefix v.settings (canonical path) = true ∧
          ids = [v.settings.publicResourceId] ∨
        isAlwaysPublicPrefix v.settings (canonical path) = false ∧
          (∃ n, store.readVersion version = .ok n) ∧
          ∃ table, store.table = .ok table ∧ v.patternsCompile table = true) := by
  unfold resolveResourceIds at h
  split at h
  · exact absurd (Except.ok.inj h).symm hne
  · rename_i p hp
    obtain ⟨hwf, rfl⟩ := canonicalizePath_eq_ok.mp hp
    refine ⟨hwf, ?_⟩
    split_ifs at h with hpublic
    · exact .inl ⟨hpublic, (Except.ok.inj h).symm⟩
    · simp only [bind_eq_ok] at h
      obtain ⟨n, hn, table, htable, h⟩ := h
      split_ifs at h with hcompile
      all_goals exact .inr ⟨by simpa using hpublic, ⟨n, hn⟩, table, htable, hcompile⟩

/-- Outside the always-public prefixes a path that resolves to the public id alone is not
reserved, and public is the only id that its tiers find. -/
theorem resolveResourceIds_publicOnly
    (h : v.resolveResourceIds store path method version = .ok ids) (hne : ids ≠ [])
    (hall : ∀ id ∈ ids, id = v.settings.publicResourceId)
    (hpublic : isAlwaysPublicPrefix v.settings (canonical path) = false) :
    ∃ table, store.table = .ok table ∧ v.patternsCompile table = true ∧
      isReservedPrefix v.settings (canonical path) = false ∧
      ∀ id ∈ v.foundIds table (canonical path), id = v.settings.publicResourceId := by
  obtain ⟨hwf, ⟨htrue, _⟩ | ⟨_, ⟨n, hversion⟩, table, htable, hcompile⟩⟩ :=
    resolveResourceIds_eq_ok h hne
  · rw [hpublic] at htrue
    exact absurd htrue (by simp)
  rw [resolveResourceIds_of_table hwf hpublic hversion htable hcompile] at h
  refine ⟨table, htable, hcompile, ?_⟩
  split_ifs at h with hempty
  · have hreserved := (fallbackIds_eq_ok h hne).2
    refine ⟨hreserved, ?_⟩
    intro id hid
    have hin : id ∈ v.tableIds table (canonical path) :=
      mem_tableIds.mpr ⟨mem_grantedIds.mpr (.inl hid), by simp [hreserved]⟩
    rw [hempty] at hin
    exact absurd hin List.not_mem_nil
  · obtain rfl := Except.ok.inj h
    have hreserved : isReservedPrefix v.settings (canonical path) = false := by
      obtain ⟨id, hid⟩ := List.exists_mem_of_ne_nil _ hempty
      by_contra hr
      exact (mem_tableIds.mp hid).2 (by simpa using hr) (hall id hid)
    refine ⟨hreserved, ?_⟩
    intro id hid
    exact hall id (mem_tableIds.mpr ⟨mem_grantedIds.mpr (.inl hid), by simp [hreserved]⟩)

/-! ## Another protected row -/

/-- The pairs of a table's dynamic patterns. -/
def patternPairs (table : RouteTable) : List (String × Path) :=
  table.filterMap fun row => row.pattern.map fun pattern => (pattern, row.url)

variable {table' : RouteTable} {row : RouteRow}

theorem mem_matchedUrls {url : Path} :
    url ∈ v.matchedUrls table path ↔
      (url = path ∨ url = normalizeAuto v.regexes path ∨
        ∃ pattern, (pattern, url) ∈ v.settings.pathPatterns ∧
          v.regexes.fullmatch pattern path = true) ∨
      ∃ pattern, (patternPairs table).reverse.lookup pattern = some url ∧
        v.regexes.fullmatch pattern path = true := by
  have hdynamic : (∃ pattern, (patternPairs table).reverse.lookup pattern = some url ∧
      v.regexes.fullmatch pattern path = true) ↔
      ∃ entry, (entry ∈ fetchDynamicPatterns table ∧ v.regexes.fullmatch entry.1 path = true) ∧
        entry.2 = url := by
    constructor
    · rintro ⟨pattern, hl, hm⟩
      exact ⟨(pattern, url), ⟨mem_dictOf_iff.mpr hl, hm⟩, rfl⟩
    · rintro ⟨⟨pattern, u⟩, ⟨hmem, hm⟩, rfl⟩
      exact ⟨pattern, mem_dictOf_iff.mp hmem, hm⟩
  have hexplicit : (∃ pattern, (pattern, url) ∈ v.settings.pathPatterns ∧
      v.regexes.fullmatch pattern path = true) ↔
      ∃ entry, (entry ∈ v.settings.pathPatterns ∧ v.regexes.fullmatch entry.1 path = true) ∧
        entry.2 = url := by
    constructor
    · rintro ⟨pattern, hl, hm⟩
      exact ⟨(pattern, url), ⟨hl, hm⟩, rfl⟩
    · rintro ⟨⟨pattern, u⟩, ⟨hmem, hm⟩, rfl⟩
      exact ⟨pattern, hmem, hm⟩
  rw [hdynamic, hexplicit]
  unfold matchedUrls
  by_cases hnorm : normalizeAuto v.regexes path = path
  · simp [hnorm, List.mem_filter, or_assoc]
  · simp [hnorm, List.mem_filter, or_assoc]

/-- A table with a row more: a row of a new url, or one in the place of its url's old row, which
held no other pattern. The rest stays as it was. -/
def AddsRow (row : RouteRow) (table table' : RouteTable) : Prop :=
  ∃ (before after : RouteTable) (old : Option RouteRow),
    table = before ++ (old.toList ++ after) ∧ table' = before ++ ([row] ++ after) ∧
      (∀ r ∈ before ++ after, r.url ≠ row.url) ∧
      ∀ r ∈ old, r.url = row.url ∧ (r.pattern = none ∨ r.pattern = row.pattern)

theorem find?_url_eq_none {rows : RouteTable} {url : Path} (h : ∀ r ∈ rows, r.url ≠ url) :
    (rows.find? fun r => r.url == url) = none := by
  rw [List.find?_eq_none]
  intro r hr
  simpa using h r hr

theorem AddsRow.fetchRoute_self (h : AddsRow row table table') :
    fetchRoute table' row.url = some row.scopeId := by
  obtain ⟨before, after, old, rfl, rfl, hrest, hold⟩ := h
  have hbefore : (before.find? fun r => r.url == row.url) = none :=
    find?_url_eq_none fun r hr => hrest r (List.mem_append_left _ hr)
  unfold fetchRoute
  rw [List.find?_append, hbefore]
  simp

theorem AddsRow.fetchRoute_of_ne (h : AddsRow row table table') {url : Path}
    (hne : url ≠ row.url) : fetchRoute table' url = fetchRoute table url := by
  obtain ⟨before, after, old, rfl, rfl, hrest, hold⟩ := h
  have hrow : ([row].find? fun r => r.url == url) = none :=
    find?_url_eq_none fun r hr => by
      rw [List.mem_singleton.mp hr]
      exact hne.symm
  have hgone : (old.toList.find? fun r => r.url == url) = none :=
    find?_url_eq_none fun r hr => by
      rw [(hold r (Option.mem_toList.mp hr)).1]
      exact hne.symm
  unfold fetchRoute
  rw [List.find?_append, List.find?_append, List.find?_append, List.find?_append, hrow, hgone]

theorem patternPairs_append (rows rest : RouteTable) :
    patternPairs (rows ++ rest) = patternPairs rows ++ patternPairs rest :=
  List.filterMap_append

theorem lookup_patternPairs_singleton (row : RouteRow) (pattern : String) :
    (patternPairs [row]).reverse.lookup pattern = none ∨
      (patternPairs [row]).reverse.lookup pattern = some row.url := by
  cases hp : row.pattern with
  | none => exact .inl (by simp [patternPairs, hp])
  | some p =>
    cases hb : pattern == p with
    | true => exact .inr (by simp [patternPairs, hp, List.lookup_cons, hb])
    | false => exact .inl (by simp [patternPairs, hp, List.lookup_cons, hb])

/-- A regex keeps its template, or gets that of the added row. -/
theorem AddsRow.lookup_pattern (h : AddsRow row table table') (pattern : String) :
    (patternPairs table').reverse.lookup pattern = some row.url ∨
      (patternPairs table').reverse.lookup pattern =
        (patternPairs table).reverse.lookup pattern := by
  obtain ⟨before, after, old, rfl, rfl, hrest, hold⟩ := h
  have hpairs : patternPairs old.toList = [] ∨
      patternPairs old.toList = patternPairs [row] := by
    cases old with
    | none => exact .inl rfl
    | some r =>
      obtain ⟨hurl, hnone | hsame⟩ := hold r rfl
      · exact .inl (by simp [patternPairs, hnone])
      · exact .inr (by simp [patternPairs, List.filterMap_cons, hurl, hsame])
  simp only [patternPairs_append, List.reverse_append, List.lookup_append, Option.or_assoc]
  cases (patternPairs after).reverse.lookup pattern with
  | some url => exact .inr rfl
  | none =>
    rcases hpairs with hpairs | hpairs
    · rcases lookup_patternPairs_singleton row pattern with hl | hl
      · exact .inr (by rw [hl, hpairs]; rfl)
      · exact .inl (by rw [hl]; rfl)
    · exact .inr (by rw [hpairs])

/-- Where the tiers of the new table miss the added row, they match the same urls as before. -/
theorem AddsRow.mem_matchedUrls_iff (h : AddsRow row table table')
    (hmiss : row.url ∉ v.matchedUrls table' path) {url : Path} :
    url ∈ v.matchedUrls table' path ↔ url ∈ v.matchedUrls table path := by
  have hlookup : ∀ pattern, v.regexes.fullmatch pattern path = true →
      (patternPairs table').reverse.lookup pattern =
        (patternPairs table).reverse.lookup pattern := by
    intro pattern hmatch
    rcases h.lookup_pattern pattern with hrow | hsame
    · exact absurd (mem_matchedUrls.mpr (.inr ⟨pattern, hrow, hmatch⟩)) hmiss
    · exact hsame
  rw [mem_matchedUrls, mem_matchedUrls]
  refine or_congr_right (exists_congr fun pattern => and_congr_left fun hmatch => ?_)
  rw [hlookup pattern hmatch]

theorem AddsRow.mem_foundIds_iff (h : AddsRow row table table')
    (hmiss : row.url ∉ v.matchedUrls table' path) {id : String} :
    id ∈ v.foundIds table' path ↔ id ∈ v.foundIds table path := by
  rw [mem_foundIds, mem_foundIds]
  refine and_congr_left fun _ => exists_congr fun url => ?_
  rw [h.mem_matchedUrls_iff hmiss]
  refine and_congr_right fun hurl => ?_
  have hne : url ≠ row.url := by
    rintro rfl
    exact hmiss ((h.mem_matchedUrls_iff hmiss).mpr hurl)
  rw [h.fetchRoute_of_ne hne]

theorem AddsRow.mem_tableIds_iff (h : AddsRow row table table')
    (hmiss : row.url ∉ v.matchedUrls table' path) {id : String} :
    id ∈ v.tableIds table' path ↔ id ∈ v.tableIds table path := by
  rw [mem_tableIds, mem_tableIds, mem_grantedIds, mem_grantedIds, h.mem_foundIds_iff hmiss]

/-- The regexes of the old table are among those of the new one. -/
theorem AddsRow.patternsCompile (h : AddsRow row table table')
    (hcompile : v.patternsCompile table' = true) : v.patternsCompile table = true := by
  unfold Verifier.patternsCompile at hcompile ⊢
  rw [List.all_eq_true] at hcompile ⊢
  rintro ⟨pattern, url⟩ hmem
  have hold : (patternPairs table).reverse.lookup pattern = some url := mem_dictOf_iff.mp hmem
  have hnew : ∃ url', (pattern, url') ∈ fetchDynamicPatterns table' := by
    rcases h.lookup_pattern pattern with hrow | hsame
    · exact ⟨row.url, mem_dictOf_iff.mpr hrow⟩
    · exact ⟨url, mem_dictOf_iff.mpr (hsame.trans hold)⟩
  obtain ⟨url', hmem'⟩ := hnew
  exact hcompile _ hmem'

end Verifier

/-! ## What the guard serves -/

variable {s : Snapshot} {method : Option String} {path : Path} {carveOutPath : Path}

/-- The guard serves a request without an identity exactly where public is all it resolves to. -/
theorem guardOn_anonymous_admitted :
    (guardOn s method carveOutPath path anonymous).admitted = true ↔
      carveOutPath ∉ s.settings.authenticatedAlwaysAllowedPaths ∧
        ∃ ids, s.verifier.resolveResourceIds s.routes path method none = .ok ids ∧ ids ≠ [] ∧
          ∀ id ∈ ids, id = s.settings.publicResourceId := by
  unfold guardOn
  by_cases hcarve : carveOutPath ∈ s.settings.authenticatedAlwaysAllowedPaths
  · simp [hcarve, anonymous, Outcome.admitted]
  · rw [if_neg hcarve]
    cases hids : s.verifier.resolveResourceIds s.routes path method none with
    | error e => simp [Outcome.admitted]
    | ok ids =>
      cases ids with
      | nil => simp [anonymous, isAdminUser, Outcome.admitted]
      | cons id ids =>
        have hpublic : isPublicOnly s.settings.publicResourceId (id :: ids) = true ↔
            ∀ i ∈ id :: ids, i = s.settings.publicResourceId := by
          simp only [isPublicOnly, Bool.and_eq_true, List.contains_iff_mem, List.all_eq_true,
            beq_iff_eq]
          constructor
          · rintro ⟨_, hall⟩
            exact hall
          · intro hall
            exact ⟨hall id List.mem_cons_self ▸ List.mem_cons_self, hall⟩
        by_cases honly : isPublicOnly s.settings.publicResourceId (id :: ids) = true
        · simpa [honly, Outcome.admitted, hcarve] using hpublic.mp honly
        · have hnot := fun h => honly (hpublic.mpr h)
          simp only [honly, anonymous, Outcome.admitted]
          simpa [hcarve] using hnot

/-- Ids that a resolution without a method finds, it finds with any. -/
theorem resolveResourceIds_method {v : Verifier} {store : RouteStore} {version n : ℕ}
    {ids : List String} {m : Option String} (hversion : store.policyVersion = .ok n)
    (h : v.resolveResourceIds store path none (some version) = .ok ids) (hne : ids ≠ []) :
    v.resolveResourceIds store path m none = .ok ids := by
  obtain ⟨hwf, ⟨hpublic, rfl⟩ | ⟨hpublic, _, table, htable, hcompile⟩⟩ :=
    Verifier.resolveResourceIds_eq_ok h hne
  · simp only [Verifier.resolveResourceIds, canonicalizePath_of_wellFormed hwf, hpublic, if_true]
  · have hread : store.readVersion none = .ok n := hversion
    rw [Verifier.resolveResourceIds_of_table hwf hpublic rfl htable hcompile] at h
    rw [Verifier.resolveResourceIds_of_table hwf hpublic hread htable hcompile]
    split_ifs at h ⊢ with hnil
    · exact absurd (Except.ok.inj h).symm hne
    · exact h

/-- A path is always public for the backend where its canonical form is. -/
theorem isAlwaysPublicPath_of_wellFormed (settings : Settings) (hwf : WellFormed path) :
    isAlwaysPublicPath settings path = isAlwaysPublicPrefix settings (canonical path) := by
  unfold isAlwaysPublicPath
  rw [canonicalizePath_of_wellFormed hwf]

/-- An always-public path is served to anyone that it is not carved out for. -/
theorem guardOn_alwaysPublic {m : Option String} (h : isAlwaysPublicPath s.settings path = true) :
    (guardOn s m path path anonymous).admitted = true ↔
      path ∉ s.settings.authenticatedAlwaysAllowedPaths := by
  rw [guardOn_anonymous_admitted]
  refine ⟨fun h => h.1, fun hcarve => ⟨hcarve, [s.settings.publicResourceId], ?_, by simp, by simp⟩⟩
  unfold isAlwaysPublicPath at h
  unfold Verifier.resolveResourceIds
  cases hcanonical : canonicalizePath path with
  | error e => simp [hcanonical] at h
  | ok p =>
    simp only [hcanonical] at h
    show (if isAlwaysPublicPrefix s.settings p then _ else _) = _
    rw [if_pos h]
    rfl

/-- An id that only a scope opens. The tiers take an empty one for none. -/
def IsProtected (settings : Settings) (id : String) : Prop :=
  id ≠ "" ∧ id ≠ settings.publicResourceId

/-- A request that is served without an identity is well formed; outside the always-public
prefixes none of its tiers matches a protected id, and it is not reserved. -/
theorem unprotected_of_anonymous
    (h : (guardOn s method carveOutPath path anonymous).admitted = true) :
    WellFormed path ∧ (isAlwaysPublicPrefix s.settings (canonical path) = true ∨
      ∃ table, s.routes.table = .ok table ∧
        (∀ url ∈ s.verifier.matchedUrls table (canonical path), ∀ id,
          fetchRoute table url = some id → ¬ IsProtected s.settings id) ∧
        isReservedPrefix s.settings (canonical path) = false) := by
  obtain ⟨_, ids, hids, hne, hall⟩ := guardOn_anonymous_admitted.mp h
  refine ⟨(Verifier.resolveResourceIds_eq_ok hids hne).1, ?_⟩
  cases hpublic : isAlwaysPublicPrefix s.settings (canonical path) with
  | true => exact .inl rfl
  | false =>
    obtain ⟨table, htable, _, hreserved, hfound⟩ :=
      Verifier.resolveResourceIds_publicOnly hids hne hall hpublic
    refine .inr ⟨table, htable, ?_, hreserved⟩
    rintro url hurl id hid ⟨hnonempty, hne'⟩
    exact hne' (hfound id (Verifier.mem_foundIds.mpr ⟨⟨url, hurl, hid⟩, hnonempty⟩))

/-- A table that is read at some policy version. -/
def Snapshot.withTable (s : Snapshot) (version : ℕ) (table : RouteTable) : Snapshot :=
  { s with routes := ⟨.ok version, .ok table⟩ }

/-- What is served without an identity after a protected row is added was served before. -/
theorem anonymous_of_addsRow {row : RouteRow} {table table' : RouteTable} {n n' : ℕ}
    (hprotected : IsProtected s.settings row.scopeId) (hadds : Verifier.AddsRow row table table')
    (h : (guardOn (s.withTable n' table') method carveOutPath path anonymous).admitted = true) :
    (guardOn (s.withTable n table) method carveOutPath path anonymous).admitted = true := by
  obtain ⟨hcarve, ids, hids, hne, hall⟩ := guardOn_anonymous_admitted.mp h
  refine guardOn_anonymous_admitted.mpr ⟨hcarve, ?_⟩
  have hwf := (Verifier.resolveResourceIds_eq_ok hids hne).1
  show ∃ ids, s.verifier.resolveResourceIds ⟨.ok n, .ok table⟩ path method none = .ok ids ∧ _
  replace hids : s.verifier.resolveResourceIds ⟨.ok n', .ok table'⟩ path method none = .ok ids :=
    hids
  cases hpublic : isAlwaysPublicPrefix s.verifier.settings (canonical path) with
  | true =>
    refine ⟨ids, ?_, hne, hall⟩
    rw [← hids]
    simp only [Verifier.resolveResourceIds, canonicalizePath_of_wellFormed hwf, hpublic, if_true]
  | false =>
    obtain ⟨t, ht, hcompile, _, hfound⟩ :=
      Verifier.resolveResourceIds_publicOnly hids hne hall hpublic
    obtain rfl : table' = t := Except.ok.inj ht
    have hmiss : row.url ∉ s.verifier.matchedUrls table' (canonical path) := by
      intro hmatch
      exact hprotected.2 (hfound _ (Verifier.mem_foundIds.mpr
        ⟨⟨row.url, hmatch, hadds.fetchRoute_self⟩, hprotected.1⟩))
    have hmem : ∀ id, id ∈ s.verifier.tableIds table' (canonical path) ↔
        id ∈ s.verifier.tableIds table (canonical path) :=
      fun id => hadds.mem_tableIds_iff hmiss
    rw [Verifier.resolveResourceIds_of_table hwf hpublic rfl rfl hcompile] at hids
    rw [Verifier.resolveResourceIds_of_table hwf hpublic rfl rfl (hadds.patternsCompile hcompile)]
    have hempty : s.verifier.tableIds table' (canonical path) = [] ↔
        s.verifier.tableIds table (canonical path) = [] := by
      simp only [List.eq_nil_iff_forall_not_mem, hmem]
    by_cases hnil : s.verifier.tableIds table' (canonical path) = []
    · rw [if_pos hnil] at hids
      exact ⟨ids, by rw [if_pos (hempty.mp hnil), hids], hne, hall⟩
    · rw [if_neg hnil] at hids
      obtain rfl := Except.ok.inj hids
      refine ⟨_, if_neg (hempty.not.mp hnil), hempty.not.mp hnil, ?_⟩
      intro id hid
      exact hall id ((hmem id).mpr hid)

/-- Deny wins for a caller without an identity. -/
theorem anonymous_denyWins (s : Snapshot) (method : Option String) (path : Path) :
    ((guardOn s method path path anonymous).admitted = true →
      WellFormed path ∧ (isAlwaysPublicPrefix s.settings (canonical path) = true ∨
        ∃ table, s.routes.table = .ok table ∧
          (∀ url ∈ s.verifier.matchedUrls table (canonical path), ∀ id,
            fetchRoute table url = some id → ¬ IsProtected s.settings id) ∧
          isReservedPrefix s.settings (canonical path) = false)) ∧
      ∀ (row : RouteRow) (table table' : RouteTable) (n n' : ℕ),
        IsProtected s.settings row.scopeId → Verifier.AddsRow row table table' →
        (guardOn (s.withTable n' table') method path path anonymous).admitted = true →
        (guardOn (s.withTable n table) method path path anonymous).admitted = true :=
  ⟨unprotected_of_anonymous, fun _ _ _ _ _ => anonymous_of_addsRow⟩

end TaiSkeleton.AccessControl
