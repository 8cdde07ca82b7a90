import TaiSkeleton.AccessControl.RoleGrants
import TaiSkeleton.App.Router

/-!
# The audit of the admin-only fence

At boot every admin-only route is resolved by its own template, and the boot fails unless each
one resolves to itself. What a request resolves to is a matter of the index: the last concrete
route of the enumeration that serves it, or else the first templated one that matches it in the
gate's form (`resolveRouteMeta_eq`).
-/

namespace TaiSkeleton.AccessControl

open Lib App

/-- What fails the boot here. -/
inductive BootError where
  | malformedPath (error : MalformedPathError)
  | fencedUnresolvable (routes : List String)
deriving DecidableEq

/-- The text of the `RuntimeError`. -/
def BootError.message : BootError → String
  | malformedPath error => error.message
  | fencedUnresolvable routes =>
    "access_control: fenced/secret route(s) do not resolve back to themselves via " ++
      "resolve_route_meta — the admin-only fence would silently fail open for: [" ++
      ", ".intercalate (routes.map fun r => Authz.TokenFree.repr r.toList) ++ "]"

/-- The admin-only routes with each of their declared methods. -/
def fencedMethods (recorded : List RouteMetadata) : List (RouteMetadata × String) :=
  ((loadAllRoutes recorded).filter fun r => r.action.isFenced).flatMap fun r =>
    r.methods.map fun method => (r, method)

/-- Those that do not resolve back to themselves. -/
def unresolvable (recorded : List RouteMetadata) : Except MalformedPathError (List String) := do
  let failed ← (fencedMethods recorded).mapM fun (r, method) => do
    let found ← resolveRouteMeta recorded r.path (some method)
    return if found = some r then [] else [method ++ " " ++ String.ofList r.path]
  return failed.flatten

/-- `check_fenced_routes_resolvable` -/
def checkFencedRoutesResolvable (recorded : List RouteMetadata) : Except BootError Unit :=
  match unresolvable recorded with
  | .error e => .error (.malformedPath e)
  | .ok [] => .ok ()
  | .ok failed => .error (.fencedUnresolvable (failed.mergeSort fun a b => decide (a ≤ b)))

/-! ## What the index holds -/

/-- The gate looks the route up by its path; it matches it by its template otherwise. -/
def isConcrete (r : RouteMetadata) : Bool := !(canonical r.path).contains '{'

/-- Whether the route serves a request in the gate's form of its template. -/
def gateServes (path : Path) (method : String) (r : RouteMetadata) : Bool :=
  (servedMethods r).contains method &&
    if isConcrete r then canonical r.path == path
    else gateMatches (templateToRegex (canonical r.path)) path

/-- The concrete and the templated entries of an index agree with a list of routes. -/
structure Indexes (index : RouteIndex) (routes : List RouteMetadata) : Prop where
  concrete : ∀ path method, index.concrete.lookup (path, method) =
    routes.reverse.find? fun r => isConcrete r && gateServes path method r
  templated : ∀ path method,
    ((index.templated.find? fun (pieces, methods, _) =>
      methods.contains method && gateMatches pieces path).map fun (_, _, route) => route) =
    routes.find? fun r => !isConcrete r && gateServes path method r

theorem lookup_map_methods (path p : Path) (methods : List String) (method : String)
    (r : RouteMetadata) :
    (methods.map fun m => ((p, m), r)).lookup (path, method) =
      if methods.contains method && p == path then some r else none := by
  induction methods with
  | nil => rfl
  | cons m methods ih =>
    have hkey : ((path, method) == (p, m)) = (p == path && method == m) := by
      show (path == p && method == m) = _
      rw [Bool.beq_comm]
    rw [List.map_cons, List.lookup_cons, ih, hkey, List.contains_cons]
    cases p == path <;> cases method == m <;> simp

theorem Indexes.add {index index' : RouteIndex} {routes : List RouteMetadata} {r : RouteMetadata}
    (h : Indexes index routes) (hadd : index.add r = .ok index') :
    Indexes index' (routes ++ [r]) := by
  simp only [RouteIndex.add, bind_eq_ok] at hadd
  obtain ⟨path, hpath, hadd⟩ := hadd
  obtain ⟨_, rfl⟩ := canonicalizePath_eq_ok.mp hpath
  split_ifs at hadd with hbrace
  · have hconcrete : isConcrete r = false := by simpa [isConcrete] using hbrace
    obtain rfl := Except.ok.inj hadd
    refine ⟨fun path method => ?_, fun path method => ?_⟩
    · rw [h.concrete, List.reverse_append, List.reverse_singleton, List.singleton_append,
        List.find?_cons_of_neg (by simp [hconcrete])]
    · rw [List.find?_append, List.find?_append, Option.map_or, h.templated]
      have hserves : gateServes path method r = ((servedMethods r).contains method &&
          gateMatches (templateToRegex (canonical r.path)) path) := by
        simp only [gateServes, hconcrete, Bool.false_eq_true, if_false]
      rw [List.find?_singleton, List.find?_singleton, hserves, hconcrete, Bool.not_false,
        Bool.true_and]
      congr 1
      split_ifs <;> rfl
  · have hconcrete : isConcrete r = true := by simpa [isConcrete] using hbrace
    obtain rfl := Except.ok.inj hadd
    refine ⟨fun path method => ?_, fun path method => ?_⟩
    · rw [List.lookup_append, h.concrete, lookup_map_methods, List.reverse_append,
        List.reverse_singleton, List.singleton_append]
      have hserves : gateServes path method r =
          ((servedMethods r).contains method && canonical r.path == path) := by
        simp only [gateServes, hconcrete, if_true]
      rw [← hserves]
      by_cases hs : gateServes path method r = true
      · rw [if_pos hs, List.find?_cons_of_pos (by simp [hconcrete, hs])]
        rfl
      · rw [if_neg hs, List.find?_cons_of_neg (by simp [hs])]
        rfl
    · rw [h.templated, List.find?_append]
      have hnone : [r].find? (fun r => !isConcrete r && gateServes path method r) = none := by
        simp [hconcrete]
      rw [hnone, Option.or_none]

theorem indexes_foldlM {index index' : RouteIndex} {seen routes : List RouteMetadata}
    (h : Indexes index seen) (hfold : routes.foldlM RouteIndex.add index = .ok index') :
    Indexes index' (seen ++ routes) := by
  induction routes generalizing index seen with
  | nil =>
    obtain rfl := Except.ok.inj hfold
    simpa using h
  | cons r routes ih =>
    rw [List.foldlM_cons, bind_eq_ok] at hfold
    obtain ⟨index₁, hadd, hrest⟩ := hfold
    have hind := ih (h.add hadd) hrest
    rwa [List.append_assoc] at hind

theorem indexes_buildIndex {routes : List RouteMetadata} {index : RouteIndex}
    (h : buildIndex routes = .ok index) : Indexes index routes :=
  have hempty : Indexes ⟨[], []⟩ [] := ⟨fun _ _ => rfl, fun _ _ => rfl⟩
  indexes_foldlM hempty h

/-- The route a well-formed request resolves to. -/
theorem resolveRouteMeta_eq {recorded : List RouteMetadata} {index : RouteIndex} {path : Path}
    {method : String} (hindex : buildIndex (loadAllRoutes recorded) = .ok index)
    (hpath : WellFormed path) :
    resolveRouteMeta recorded path (some method) =
      .ok (((loadAllRoutes recorded).reverse.find? fun r =>
          isConcrete r && gateServes (canonical path) method r).or
        ((loadAllRoutes recorded).find? fun r =>
          !isConcrete r && gateServes (canonical path) method r)) := by
  have h := indexes_buildIndex hindex
  simp only [resolveRouteMeta, hindex, ok_bind, canonicalizePath_of_wellFormed hpath, pure_eq_ok,
    RouteIndex.find, h.concrete, h.templated]

/-! ## Where the fence holds -/

/-- The level decision of an admin-only route. -/
def fenceDecision (policy : AccessPolicy) : Bool × Option DenialCause :=
  if policy.isAdmin then (true, none) else (false, some .hardFence)

/-- A request resolves to an admin-only route, and the level decision is the fence's for every
policy. -/
structure FenceHolds (recorded : List RouteMetadata) (path : Path) (method : String) : Prop where
  resolves : ∃ r, resolveRouteMeta recorded path (some method) = .ok (some r) ∧
    r.action.isFenced = true
  decides : ∀ grants policy ownerPolicy, roleLevelDecision ⟨recorded, grants⟩ policy ownerPolicy
    path (some method) = .ok (fenceDecision policy)

/-- The gate answers with `s` before `r`, which stands between `before` and `after` in the
enumeration: a concrete route overrides a templated one and the concrete ones before it, and a
templated one the templated ones after it. -/
def Overrides (before after : List RouteMetadata) (r s : RouteMetadata) : Prop :=
  isConcrete s = true ∧ (isConcrete r = false ∨ s ∈ after) ∨
    isConcrete s = false ∧ isConcrete r = false ∧ s ∈ before

/-- The path is well formed, an admin-only route serves the request in the gate's form of its
template, and no other route that does overrides it. -/
structure Guarded (recorded : List RouteMetadata) (path : Path) (method : String) : Prop where
  wellFormed : WellFormed path
  guard : ∃ before r after, loadAllRoutes recorded = before ++ r :: after ∧
    r.action.isFenced = true ∧ gateServes (canonical path) method r = true ∧
    ∀ s ∈ before ++ after, s.action.isFenced = false →
      gateServes (canonical path) method s = true → ¬ Overrides before after r s

variable {recorded : List RouteMetadata} {path : Path} {method : String} {route : RouteMetadata}

/-- An audit that passes has built the index, if there is an admin-only route with a method. -/
theorem buildIndex_of_audit (haudit : checkFencedRoutesResolvable recorded = .ok ())
    (hroute : route ∈ recorded) (hfenced : route.action.isFenced = true)
    (hmethod : method ∈ route.methods) :
    ∃ index, buildIndex (loadAllRoutes recorded) = .ok index := by
  cases hbuild : buildIndex (loadAllRoutes recorded) with
  | ok index => exact ⟨index, rfl⟩
  | error e =>
    have hmem : (route, method) ∈ fencedMethods recorded := by
      simp only [fencedMethods, List.mem_flatMap, List.mem_filter, List.mem_map]
      exact ⟨route, ⟨mem_loadAllRoutes.mpr hroute, hfenced⟩, method, hmethod, rfl⟩
    have herror : unresolvable recorded = .error e := by
      unfold unresolvable
      cases hpairs : fencedMethods recorded with
      | nil =>
        rw [hpairs] at hmem
        exact absurd hmem List.not_mem_nil
      | cons pair pairs => simp [List.mapM_cons, resolveRouteMeta, hbuild]
    simp [checkFencedRoutesResolvable, herror] at haudit

/-- Of two places in a list, one comes first or they are the same. -/
theorem split_cases {α : Type} {a b : α} {l₁ l₂ l₃ l₄ : List α}
    (h : l₁ ++ a :: l₂ = l₃ ++ b :: l₄) : b ∈ l₂ ∧ a ∈ l₃ ∨ a = b ∨ a ∈ l₄ ∧ b ∈ l₁ := by
  rcases List.append_eq_append_iff.mp h with ⟨m, rfl, hm⟩ | ⟨m, rfl, hm⟩
  · cases m with
    | nil => exact .inr (.inl (List.cons.inj hm).1)
    | cons c m =>
      obtain ⟨rfl, rfl⟩ := List.cons.inj hm
      exact .inl (by simp)
  · cases m with
    | nil => exact .inr (.inl (List.cons.inj hm).1.symm)
    | cons c m =>
      obtain ⟨rfl, rfl⟩ := List.cons.inj hm
      exact .inr (.inr (by simp))

theorem find?_reverse_eq_some {α : Type} {p : α → Bool} {l : List α} {a : α} :
    l.reverse.find? p = some a ↔
      p a = true ∧ ∃ before after, l = before ++ a :: after ∧ ∀ b ∈ after, p b = false := by
  rw [List.find?_eq_some_iff_append]
  refine and_congr_right fun _ => ?_
  constructor
  · rintro ⟨as, bs, heq, hnone⟩
    refine ⟨bs.reverse, as.reverse, ?_, fun b hb => by simpa using hnone b (by simpa using hb)⟩
    rw [← List.reverse_reverse l, heq]
    simp
  · rintro ⟨before, after, rfl, hnone⟩
    exact ⟨after.reverse, before.reverse, by simp,
      fun b hb => by simpa using hnone b (by simpa using hb)⟩

/-- An unfenced route among those around a fenced one. -/
theorem mem_around {before after : List RouteMetadata} {r s : RouteMetadata}
    (hr : r.action.isFenced = true) (hs : s ∈ before ++ r :: after)
    (hunfenced : s.action.isFenced = false) : s ∈ before ++ after := by
  have hne : s ≠ r := by
    rintro rfl
    rw [hr] at hunfenced
    exact Bool.false_ne_true hunfenced.symm
  simp only [List.mem_append, List.mem_cons] at hs ⊢
  rcases hs with hs | hs | hs
  · exact .inl hs
  · exact absurd hs hne
  · exact .inr hs

/-- The route the index answers with is admin-only exactly where one serves the request that no
other route overrides. -/
theorem indexed_isFenced_iff {routes : List RouteMetadata} :
    (∃ r, ((routes.reverse.find? fun r => isConcrete r && gateServes path method r).or
        (routes.find? fun r => !isConcrete r && gateServes path method r)) = some r ∧
      r.action.isFenced = true) ↔
    ∃ before r after, routes = before ++ r :: after ∧ r.action.isFenced = true ∧
      gateServes path method r = true ∧ ∀ s ∈ before ++ after, s.action.isFenced = false →
        gateServes path method s = true → ¬ Overrides before after r s := by
  constructor
  · rintro ⟨r, hfind, hfenced⟩
    rcases Option.or_eq_some_iff.mp hfind with hconcrete | ⟨hnone, htemplated⟩
    · obtain ⟨hr, before, after, rfl, hafter⟩ := find?_reverse_eq_some.mp hconcrete
      simp only [Bool.and_eq_true] at hr
      refine ⟨before, r, after, rfl, hfenced, hr.2, fun s _ _ hserves hover => ?_⟩
      rcases hover with ⟨hs, hr' | hs'⟩ | ⟨_, hr', _⟩
      · exact absurd hr.1 (by simp [hr'])
      · exact absurd (hafter s hs') (by simp [hs, hserves])
      · exact absurd hr.1 (by simp [hr'])
    · obtain ⟨hr, before, after, rfl, hbefore⟩ := List.find?_eq_some_iff_append.mp htemplated
      simp only [Bool.and_eq_true, Bool.not_eq_true'] at hr
      refine ⟨before, r, after, rfl, hfenced, hr.2, fun s hmem _ hserves hover => ?_⟩
      rcases hover with ⟨hs, _⟩ | ⟨hs, _, hs'⟩
      · have hno := List.find?_eq_none.mp hnone s (by
          simp only [List.mem_reverse, List.mem_append, List.mem_cons] at hmem ⊢
          tauto)
        exact hno (by simp [hs, hserves])
      · have hno := hbefore s hs'
        simp [hs, hserves] at hno
  · rintro ⟨before, r, after, rfl, hfenced, hserves, hover⟩
    by_cases hr : isConcrete r = true
    · -- The last concrete route that serves the request is `r` or comes after it.
      have hsome : ((before ++ r :: after).reverse.find? fun r =>
          isConcrete r && gateServes path method r).isSome = true := by
        rw [List.find?_isSome]
        exact ⟨r, by simp, by simp [hr, hserves]⟩
      obtain ⟨w, hw⟩ := Option.isSome_iff_exists.mp hsome
      refine ⟨w, by rw [hw]; rfl, ?_⟩
      obtain ⟨hwserves, b, a, hsplit, hafter⟩ := find?_reverse_eq_some.mp hw
      simp only [Bool.and_eq_true] at hwserves
      by_contra hunfenced
      have hunfenced' : w.action.isFenced = false := by simpa using hunfenced
      rcases split_cases hsplit with ⟨hin, _⟩ | rfl | ⟨hin, _⟩
      · exact hover w (List.mem_append_right _ hin) hunfenced' hwserves.2
          (.inl ⟨hwserves.1, .inr hin⟩)
      · exact hunfenced hfenced
      · exact absurd (hafter r hin) (by simp [hr, hserves])
    · have hr' : isConcrete r = false := by simpa using hr
      cases hconcrete : (before ++ r :: after).reverse.find? fun r =>
          isConcrete r && gateServes path method r with
      | some w =>
        refine ⟨w, rfl, ?_⟩
        by_contra hunfenced
        have hunfenced' : w.action.isFenced = false := by simpa using hunfenced
        have hwserves := List.find?_some hconcrete
        simp only [Bool.and_eq_true] at hwserves
        have hmem := mem_around hfenced
          (List.mem_reverse.mp (List.mem_of_find?_eq_some hconcrete)) hunfenced'
        exact hover w hmem hunfenced' hwserves.2 (.inl ⟨hwserves.1, .inl hr'⟩)
      | none =>
        have hsome : ((before ++ r :: after).find? fun r =>
            !isConcrete r && gateServes path method r).isSome = true := by
          rw [List.find?_isSome]
          exact ⟨r, by simp, by simp [hr', hserves]⟩
        obtain ⟨w, hw⟩ := Option.isSome_iff_exists.mp hsome
        refine ⟨w, by rw [hw]; rfl, ?_⟩
        obtain ⟨hwserves, b, a, hsplit, hbefore⟩ := List.find?_eq_some_iff_append.mp hw
        simp only [Bool.and_eq_true, Bool.not_eq_true'] at hwserves
        by_contra hunfenced
        have hunfenced' : w.action.isFenced = false := by simpa using hunfenced
        rcases split_cases hsplit with ⟨_, hin⟩ | rfl | ⟨_, hin⟩
        · have hno := hbefore r hin
          simp [hr', hserves] at hno
        · exact hunfenced hfenced
        · exact hover w (List.mem_append_left _ hin) hunfenced' hwserves.2
            (.inr ⟨hwserves.1, hr', hin⟩)

/-- On an admin-only route of a deployment that the audit lets boot, the fence holds exactly of
the guarded requests. -/
theorem fenceHolds_iff (haudit : checkFencedRoutesResolvable recorded = .ok ())
    (hdispatch : dispatch recorded path method = some route)
    (hfenced : route.action.isFenced = true) :
    FenceHolds recorded path method ↔ Guarded recorded path method := by
  have hroute : route ∈ recorded := List.mem_of_find?_eq_some hdispatch
  have hmethods : ∃ m, m ∈ route.methods := by
    have htakes := List.find?_some hdispatch
    simp only [RouteMetadata.takes, Bool.and_eq_true, List.contains_iff_mem] at htakes
    have hserved := htakes.2
    unfold servedMethods at hserved
    split_ifs at hserved with hget
    · exact ⟨_, hget⟩
    · exact ⟨_, hserved⟩
  obtain ⟨m, hm⟩ := hmethods
  obtain ⟨index, hindex⟩ := buildIndex_of_audit haudit hroute hfenced hm
  constructor
  · rintro ⟨⟨r, hresolve, hr⟩, _⟩
    by_cases hwf : WellFormed path
    · rw [resolveRouteMeta_eq hindex hwf] at hresolve
      exact ⟨hwf, indexed_isFenced_iff.mp ⟨r, Except.ok.inj hresolve, hr⟩⟩
    · obtain ⟨e, he⟩ := canonicalizePath_of_not_wellFormed hwf
      simp [resolveRouteMeta, hindex, he] at hresolve
  · rintro ⟨hwf, hguard⟩
    obtain ⟨r, hr, hfencedr⟩ := indexed_isFenced_iff.mpr hguard
    have hresolve : resolveRouteMeta recorded path (some method) = .ok (some r) := by
      rw [resolveRouteMeta_eq hindex hwf, hr]
    refine ⟨⟨r, hresolve, hfencedr⟩, fun grants policy ownerPolicy => ?_⟩
    simp only [roleLevelDecision, hresolve, roleLevelDecisionForRoute, hfencedr, if_true,
      fenceDecision]
    split_ifs <;> rfl

/-- A route to delete a job, for admins only. -/
def deleteJob : RouteMetadata := ⟨"/api/jobs/\x7bid\x7d".toList, ["DELETE"], ["jobs"], .fenced⟩

theorem deleteJob_fenceHolds : FenceHolds [deleteJob] "/api/jobs/5".toList "DELETE" := by
  have hdispatch : dispatch [deleteJob] "/api/jobs/5".toList "DELETE" = some deleteJob := by
    decide +kernel
  refine (fenceHolds_iff (by decide +kernel) hdispatch rfl).mpr ⟨by decide +kernel, ?_⟩
  exact ⟨[], deleteJob, [], List.mergeSort_singleton _, rfl, by decide +kernel, by simp⟩

/-- The same route with an integer parameter, which the gate does not know. -/
def deleteIntJob : RouteMetadata :=
  ⟨"/api/jobs/\x7bid:int\x7d".toList, ["DELETE"], ["jobs"], .fenced⟩

theorem deleteIntJob_not_fenceHolds :
    checkFencedRoutesResolvable [deleteIntJob] = .ok () ∧
      dispatch [deleteIntJob] "/api/jobs/5".toList "DELETE" = some deleteIntJob ∧
      deleteIntJob.action.isFenced = true ∧
      resolveRouteMeta [deleteIntJob] "/api/jobs/5".toList (some "DELETE") = .ok none ∧
      roleLevelDecision ⟨[deleteIntJob], fun _ => .ok none⟩ ⟨[], none, none, [], []⟩ none
        "/api/jobs/5".toList (some "DELETE") = .ok (true, none) := by
  have hresolve :
      resolveRouteMeta [deleteIntJob] "/api/jobs/5".toList (some "DELETE") = .ok none := by
    decide +kernel
  refine ⟨by decide +kernel, by decide +kernel, rfl, hresolve, ?_⟩
  simp only [roleLevelDecision, hresolve]

end TaiSkeleton.AccessControl
