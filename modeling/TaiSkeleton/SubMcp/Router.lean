import TaiSkeleton.Lib.Leases
import TaiSkeleton.Tools.Binding

/-!
# The sub-MCP router

A worker serves each sub-MCP app under a slug. The router binds slugs to configurations, builds the
app of a slug at its first request, and holds the lifespan that the build has entered until the slug
is replaced, unregistered or reset. A build is kept only where the slug still has the generation
token that it had when the build began.
-/

namespace TaiSkeleton.SubMcp

open Lib Tools

/-! ## Registrations -/

def isSlugHead (c : Char) : Bool := c.isLower || c.isDigit

/-- `_SLUG_RE` -/
def validSlug (slug : String) : Bool :=
  match slug.toList with
  | [] => false
  | c :: cs => isSlugHead c && cs.all fun c => isSlugHead c || c == '_' || c == '-'

/-- A slug that has passed `validate_registration`. -/
def Slug : Type := { slug : String // validSlug slug = true }
deriving DecidableEq

def Slug.ofString? (slug : String) : Option Slug :=
  if h : validSlug slug = true then some ⟨slug, h⟩ else none

def transportOf? : String → Option Transport
  | "http" => some .http
  | "sse" => some .sse
  | "stdio" => some .stdio
  | _ => none

inductive RegistrationError where
  | slug (slug : String)
  | transport (transport : String)
deriving DecidableEq

/-- `validate_registration` -/
def validateRegistration (slug transport : String) : Except RegistrationError (Slug × Transport) :=
  match Slug.ofString? slug with
  | none => .error (.slug slug)
  | some valid =>
    match transportOf? transport with
    | none => .error (.transport transport)
    | some known => .ok (valid, known)

/-! ## The router -/

deriving instance DecidableEq for RouteConfig

/-- An app that `_build_sub_app` has built of a configuration, with the lifespan it has entered. -/
structure SubApp where
  config : RouteConfig
  lifespan : ℕ
deriving DecidableEq

/-- The dicts of a `SubMcpAppRouter`; `lifespans` holds `_app_exit_stacks`, and keeps track of the
lifespans that have been taken out of it. -/
structure SubMcpAppRouter where
  routes : Slug → Option RouteConfig := fun _ => none
  serverCache : Slug → Option (Option SubApp) := fun _ => none
  generation : ℕ := 0
  routeGenerations : Slug → Option ℕ := fun _ => none
  lifespans : Leases Slug := {}

namespace SubMcpAppRouter

variable (router : SubMcpAppRouter) (slug : Slug)

/-- `_pop_slug_locked` -/
def popSlugLocked : SubMcpAppRouter :=
  { router with
    routes := Function.update router.routes slug none
    serverCache := Function.update router.serverCache slug none
    routeGenerations := Function.update router.routeGenerations slug none
    lifespans := router.lifespans.release slug }

/-- Whether a registration of the slug replaces one. -/
def replaces : Bool := (router.routes slug).isSome || (router.serverCache slug).isSome

/-- The lifespan that a registration of the slug closes. -/
def stale : Option ℕ := if router.replaces slug then router.lifespans.held.lookup slug else none

/-- A configuration under a new generation token. -/
def stamp (config : RouteConfig) : SubMcpAppRouter :=
  { router with
    routes := Function.update router.routes slug (some config)
    generation := router.generation + 1
    routeGenerations := Function.update router.routeGenerations slug (some (router.generation + 1)) }

/-- `register_sub_mcp_app` under the state lock -/
def registerSubMcpApp (config : RouteConfig) : SubMcpAppRouter :=
  (if router.replaces slug then router.popSlugLocked slug else router).stamp slug config

/-- `reset` -/
def reset : SubMcpAppRouter :=
  { routes := fun _ => none
    serverCache := fun _ => none
    generation := router.generation + 1
    routeGenerations := fun _ => none
    lifespans := router.lifespans.releaseAll }

/-- What `_get_or_build_app` caches of a build whose token is still the slug's. -/
def record (app : Option SubApp) : SubMcpAppRouter :=
  { router with
    serverCache := Function.update router.serverCache slug (some app)
    lifespans :=
      match app with
      | none => router.lifespans
      | some app => router.lifespans.hold slug app.lifespan }

end SubMcpAppRouter

/-! ## What the router knows of a slug -/

/-- The values of a slug in the router's dicts. -/
structure Entry where
  route : Option RouteConfig
  cached : Option (Option SubApp)
  token : Option ℕ
  lifespan : Option ℕ

/-- A cached app is of the slug's configuration, and its lifespan is the one that is held. -/
structure Entry.Sound (entry : Entry) (generation : ℕ) : Prop where
  stamped : entry.route.isSome = entry.token.isSome
  le : ∀ gen, entry.token = some gen → gen ≤ generation
  cached : ∀ app, entry.cached = some (some app) →
    entry.route = some app.config ∧ entry.lifespan = some app.lifespan
  stdio : entry.cached = some none → ∃ config, entry.route = some config ∧
    config.transport = .stdio
  held : ∀ i, entry.lifespan = some i → ∃ app, entry.cached = some (some app)

theorem Entry.Sound.mono {entry : Entry} {n m : ℕ} (h : entry.Sound n) (hle : n ≤ m) :
    entry.Sound m where
  stamped := h.stamped
  le gen hgen := (h.le gen hgen).trans hle
  cached := h.cached
  stdio := h.stdio
  held := h.held

theorem Entry.Sound.absent {n : ℕ} : Entry.Sound ⟨none, none, none, none⟩ n :=
  ⟨rfl, nofun, nofun, nofun, nofun⟩

theorem Entry.Sound.registered {config : RouteConfig} {n : ℕ} :
    Entry.Sound ⟨some config, none, some n, none⟩ n :=
  ⟨rfl, fun _ hgen => (Option.some.inj hgen).ge, nofun, nofun, nofun⟩

namespace SubMcpAppRouter

variable {router : SubMcpAppRouter} {slug other : Slug} {config : RouteConfig} {loose : Multiset ℕ}
  {gen : ℕ}

def entry (router : SubMcpAppRouter) (slug : Slug) : Entry :=
  ⟨router.routes slug, router.serverCache slug, router.routeGenerations slug,
    router.lifespans.held.lookup slug⟩

/-- The lifespans that are neither held, closing nor closed are loose. -/
structure Sound (router : SubMcpAppRouter) (loose : Multiset ℕ) : Prop where
  entry : ∀ slug, (router.entry slug).Sound router.generation
  conserved : router.lifespans.Conserved loose

/-- What a build knows of the registration it runs against. -/
structure Captured (router : SubMcpAppRouter) (slug : Slug) (config : RouteConfig) (gen : ℕ) :
    Prop where
  le : gen ≤ router.generation
  config : router.routeGenerations slug = some gen → router.routes slug = some config
  uncached : router.serverCache slug = none

theorem entry_popSlugLocked : (router.popSlugLocked slug).entry slug = ⟨none, none, none, none⟩ := by
  simp only [entry, popSlugLocked, Function.update_self, Leases.lookup_release]

theorem entry_popSlugLocked_of_ne (h : other ≠ slug) :
    (router.popSlugLocked slug).entry other = router.entry other := by
  simp only [entry, popSlugLocked, Function.update_of_ne h, Leases.lookup_release_of_ne h]

theorem entry_stamp : (router.stamp slug config).entry slug =
    ⟨some config, router.serverCache slug, some (router.generation + 1),
      router.lifespans.held.lookup slug⟩ := by
  simp only [entry, stamp, Function.update_self]

theorem entry_stamp_of_ne (h : other ≠ slug) :
    (router.stamp slug config).entry other = router.entry other := by
  simp only [entry, stamp, Function.update_of_ne h]

theorem entry_reset : router.reset.entry slug = ⟨none, none, none, none⟩ := by
  simp only [entry, reset, Leases.lookup_releaseAll]

@[simp]
theorem generation_registerSubMcpApp :
    (router.registerSubMcpApp slug config).generation = router.generation + 1 := by
  unfold registerSubMcpApp
  split <;> rfl

theorem entry_registerSubMcpApp_of_ne (h : other ≠ slug) :
    (router.registerSubMcpApp slug config).entry other = router.entry other := by
  unfold registerSubMcpApp
  rw [entry_stamp_of_ne h]
  split
  · exact entry_popSlugLocked_of_ne h
  · rfl

/-- A registration leaves nothing of the one before. -/
theorem Sound.entry_registerSubMcpApp (h : router.Sound loose) :
    (router.registerSubMcpApp slug config).entry slug =
      ⟨some config, none, some (router.generation + 1), none⟩ := by
  unfold registerSubMcpApp
  rw [entry_stamp]
  split
  · simp only [popSlugLocked, Function.update_self, Leases.lookup_release]
  · next hreplaces =>
    obtain ⟨-, hcached⟩ : router.routes slug = none ∧ router.serverCache slug = none := by
      simpa only [replaces, Bool.or_eq_true, not_or, Bool.not_eq_true, Option.isSome_eq_false_iff,
        Option.isNone_iff_eq_none] using hreplaces
    have hlifespan : router.lifespans.held.lookup slug = none := by
      refine Option.eq_none_iff_forall_ne_some.mpr fun i hi => ?_
      obtain ⟨app, happ⟩ := (h.entry slug).held i hi
      exact nomatch hcached.symm.trans happ
    rw [hcached, hlifespan]

/-! ## The operations keep it -/

namespace Sound

theorem first : ({} : SubMcpAppRouter).Sound 0 := ⟨fun _ => .absent, Leases.Conserved.first⟩

theorem popSlugLocked (h : router.Sound loose) : (router.popSlugLocked slug).Sound loose where
  entry other := by
    by_cases hother : other = slug
    · subst hother
      rw [entry_popSlugLocked]
      exact .absent
    · rw [entry_popSlugLocked_of_ne hother]
      exact h.entry other
  conserved := h.conserved.release

theorem registerSubMcpApp (h : router.Sound loose) :
    (router.registerSubMcpApp slug config).Sound loose where
  entry other := by
    rw [generation_registerSubMcpApp]
    by_cases hother : other = slug
    · subst hother
      rw [h.entry_registerSubMcpApp]
      exact .registered
    · rw [entry_registerSubMcpApp_of_ne hother]
      exact (h.entry other).mono (Nat.le_succ _)
  conserved := by
    unfold SubMcpAppRouter.registerSubMcpApp
    split
    · exact h.conserved.release
    · exact h.conserved

theorem reset (h : router.Sound loose) : router.reset.Sound loose where
  entry slug := by
    rw [entry_reset]
    exact .absent
  conserved := h.conserved.releaseAll

/-- The lifespans move on, and those that are held stay. -/
theorem setLifespans (h : router.Sound loose) {lifespans : Leases Slug} {loose' : Multiset ℕ}
    (hheld : lifespans.held = router.lifespans.held) (hconserved : lifespans.Conserved loose') :
    Sound { router with lifespans := lifespans } loose' where
  entry slug := by
    have hsound := h.entry slug
    simp only [SubMcpAppRouter.entry] at hsound ⊢
    rw [hheld]
    exact hsound
  conserved := hconserved

/-- A build whose token is still the slug's. -/
theorem record_none (h : router.Sound loose) (hcaptured : router.Captured slug config gen)
    (hgen : router.routeGenerations slug = some gen) (hstdio : config.transport = .stdio) :
    (router.record slug none).Sound loose where
  entry other := by
    by_cases hother : other = slug
    · subst hother
      have hsound := h.entry other
      have hroute := hcaptured.config hgen
      refine ⟨hsound.stamped, hsound.le, ?_, fun _ => ⟨config, hroute, hstdio⟩, fun i hi => ?_⟩
      · simp only [SubMcpAppRouter.entry, record, Function.update_self]
        nofun
      · obtain ⟨app, happ⟩ := hsound.held i hi
        exact nomatch hcaptured.uncached.symm.trans happ
    · have hsound := h.entry other
      simp only [SubMcpAppRouter.entry, record, Function.update_of_ne hother] at hsound ⊢
      exact hsound
  conserved := h.conserved

theorem record_some {app : SubApp} (h : router.Sound (app.lifespan ::ₘ loose))
    (hcaptured : router.Captured slug app.config gen)
    (hgen : router.routeGenerations slug = some gen) :
    (router.record slug (some app)).Sound loose where
  entry other := by
    have hsound := h.entry other
    by_cases hother : other = slug
    · subst hother
      have hroute := hcaptured.config hgen
      simp only [SubMcpAppRouter.entry, record, Function.update_self, Leases.lookup_hold]
      refine ⟨hsound.stamped, hsound.le, fun built hbuilt => ?_, nofun, fun i hi => ⟨app, rfl⟩⟩
      obtain rfl := Option.some.inj (Option.some.inj hbuilt)
      exact ⟨hroute, rfl⟩
    · simp only [SubMcpAppRouter.entry, record, Function.update_of_ne hother,
        Leases.lookup_hold_of_ne hother] at hsound ⊢
      exact hsound
  conserved := by
    refine h.conserved.hold ?_
    refine Option.eq_none_iff_forall_ne_some.mpr fun i hi => ?_
    obtain ⟨built, hbuilt⟩ := (h.entry slug).held i hi
    exact nomatch hcaptured.uncached.symm.trans hbuilt

/-- The loop of a build that finds its slug uncached captures its registration. -/
theorem captured (h : router.Sound loose) (huncached : router.serverCache slug = none)
    (hroute : router.routes slug = some config) (hgen : router.routeGenerations slug = some gen) :
    router.Captured slug config gen :=
  ⟨(h.entry slug).le gen hgen, fun _ => hroute, huncached⟩

end Sound

namespace Captured

variable {popped : Slug}

theorem popSlugLocked (h : router.Captured slug config gen) :
    (router.popSlugLocked popped).Captured slug config gen := by
  by_cases hslug : slug = popped
  · subst hslug
    refine ⟨h.le, fun hgen => ?_, Function.update_self ..⟩
    simp only [SubMcpAppRouter.popSlugLocked, Function.update_self] at hgen
    cases hgen
  · refine ⟨h.le, ?_, ?_⟩
    · simp only [SubMcpAppRouter.popSlugLocked, Function.update_of_ne hslug]
      exact h.config
    · simp only [SubMcpAppRouter.popSlugLocked, Function.update_of_ne hslug]
      exact h.uncached

theorem stamp {registered : RouteConfig} (h : router.Captured slug config gen) :
    (router.stamp popped registered).Captured slug config gen := by
  refine ⟨h.le.trans (Nat.le_succ _), fun hgen => ?_, h.uncached⟩
  by_cases hslug : slug = popped
  · subst hslug
    simp only [SubMcpAppRouter.stamp, Function.update_self, Option.some.injEq] at hgen
    exact absurd h.le (by omega)
  · simp only [SubMcpAppRouter.stamp, Function.update_of_ne hslug] at hgen ⊢
    exact h.config hgen

theorem registerSubMcpApp {registered : RouteConfig} (h : router.Captured slug config gen) :
    (router.registerSubMcpApp popped registered).Captured slug config gen := by
  unfold SubMcpAppRouter.registerSubMcpApp
  split
  · exact h.popSlugLocked.stamp
  · exact h.stamp

theorem reset (h : router.Captured slug config gen) : router.reset.Captured slug config gen :=
  ⟨h.le.trans (Nat.le_succ _), nofun, rfl⟩

end Captured

end SubMcpAppRouter

end TaiSkeleton.SubMcp
