import TaiSkeleton.SubMcp.Service

/-!
# The router follows the store

Whatever the interleaving, the apps that a worker serves are of the configurations it has bound, and
no lifespan is lost or closed twice. What it has bound is what the store holds, as long as no call
changes the router's binding of a slug for which the store has moved on and no other call has yet to
follow.
-/

namespace TaiSkeleton.SubMcp

open Lib Tools

/-- What a worker promises once it has come to rest. -/
structure Worker.FollowsStore (s : Worker) : Prop where
  routes : ∀ slug ∈ s.written, s.router.routes slug = s.store.lookup slug
  cached : ∀ slug app, s.router.serverCache slug = some (some app) →
    s.router.routes slug = some app.config
  stdio : ∀ slug, s.router.serverCache slug = some none →
    ∃ config, s.router.routes slug = some config ∧ config.transport = .stdio
  held : ∀ slug i, s.router.lifespans.held.lookup slug = some i →
    (∃ app, s.router.serverCache slug = some (some app) ∧ app.lifespan = i) ∧
      s.router.lifespans.closed.count i = 0
  closed : ∀ i < s.router.lifespans.acquired,
    (∃ slug, s.router.lifespans.held.lookup slug = some i) ∨
      s.router.lifespans.closed.count i = 1
  dispatched : ∀ d ∈ s.dispatched, d.closes = 0

/-! ## The condition -/

/-- A call that has yet to follow the store for a slug. -/
def Call.owes (store : Finmap fun _ : Slug => RouteConfig) (slug : Slug) : Call → Bool
  | .saved other _ | .deleted other | .unbinding other => other = slug
  | .reloading => slug ∈ store
  | .rebinding rest => slug ∈ rest
  | _ => false

namespace Worker

/-- A call other than this one has yet to follow the store for a slug. -/
def OwedBeside (s : Worker) (i : ℕ) (slug : Slug) : Prop :=
  ∃ j ∈ s.calls.keys, j ≠ i ∧ (s.calls.lookup j).any (Call.owes s.store slug) = true

/-- The store holds what a call is about to bind, or another call is still to come. -/
def Timely (s : Worker) (i : ℕ) (slug : Slug) (target : Option RouteConfig) : Prop :=
  s.store.lookup slug = target ∨ s.OwedBeside i slug

instance (s : Worker) (i : ℕ) (slug : Slug) : Decidable (s.OwedBeside i slug) :=
  inferInstanceAs (Decidable (∃ j ∈ s.calls.keys, _))

instance (s : Worker) (i : ℕ) (slug : Slug) (target : Option RouteConfig) :
    Decidable (s.Timely i slug target) :=
  inferInstanceAs (Decidable (_ ∨ _))

/-- Every step that changes the router's binding of a slug, or leaves the slug unbound, is timely. -/
def orderly (s : Worker) : Act → Bool
  | .advance i _ =>
    match s.calls.lookup i with
    | some (.saved slug config) | some (.answered slug config) => s.Timely i slug (some config)
    | some (.deleted slug) => (s.router.routes slug).isSome || decide (s.Timely i slug none)
    | some (.unbinding slug) => s.Timely i slug none
    | _ => true
  | .rebind i slug =>
    match s.calls.lookup i with
    | some (.rebinding rest) => (rest.lookup slug).all fun config => s.Timely i slug (some config)
    | _ => true
  | _ => true

end Worker

/-! ## Apps and lifespans -/

/-- The lifespan that a build has entered and the router does not know yet. -/
def Phase.loose : Phase → Multiset ℕ
  | .built _ _ (some app) => {app.lifespan}
  | _ => 0

/-- What a build that goes on has captured, and built. -/
def Phase.Sound (router : SubMcpAppRouter) (slug : Slug) : Phase → Prop
  | .building config gen => router.Captured slug config gen
  | .built config gen none => router.Captured slug config gen ∧ config.transport = .stdio
  | .built config gen (some app) => router.Captured slug config gen ∧ app.config = config
  | _ => True

theorem Phase.Sound.mono {router router' : SubMcpAppRouter} {slug : Slug} {phase : Phase}
    (h : phase.Sound router slug)
    (hcaptured : ∀ config gen, router.Captured slug config gen →
      router'.Captured slug config gen) : phase.Sound router' slug := by
  cases phase with
  | building config gen => exact hcaptured _ _ h
  | built config gen app =>
    cases app with
    | none => exact ⟨hcaptured _ _ h.1, h.2⟩
    | some app => exact ⟨hcaptured _ _ h.1, h.2⟩
  | looking => trivial
  | discarding lifespan vanished => trivial

namespace Worker

/-- The lifespan of the build that goes on. -/
def loose (s : Worker) : Multiset ℕ := (s.builder.map fun b => b.phase.loose).getD 0

structure Sound (s : Worker) : Prop where
  router : s.router.Sound s.loose
  builder : ∀ b, s.builder = some b → b.phase.Sound s.router b.slug
  apart : ∀ b, s.builder = some b → s.calls.lookup b.call = none
  found : ∀ i slug app closes, s.calls.lookup i = some (.found slug app closes) → closes = 0
  dispatched : ∀ d ∈ s.dispatched, d.closes = 0

variable {s s' : Worker} {i : ℕ} {slug : Slug} {b : Builder}

theorem lookup_goOn {call : Option Call} : (s.goOn i call).calls.lookup i = call := by
  cases call with
  | none => exact Finmap.lookup_erase _ _
  | some call => exact Finmap.lookup_insert _

theorem lookup_goOn_of_ne {call : Option Call} {j : ℕ} (hj : j ≠ i) :
    (s.goOn i call).calls.lookup j = s.calls.lookup j := by
  cases call with
  | none => exact Finmap.lookup_erase_ne hj
  | some call => exact Finmap.lookup_insert_of_ne _ hj

/-- A cached app has not been closed. -/
theorem Sound.closesOf_cached (h : s.Sound) {app : Option SubApp}
    (hcached : s.router.serverCache slug = some app) : s.closesOf app = 0 := by
  cases app with
  | none => rfl
  | some app =>
    obtain ⟨-, hheld⟩ := (h.router.entry slug).cached app hcached
    exact h.router.conserved.count_closed_of_held hheld

namespace Sound

theorem found_goOn (h : s.Sound) {call : Option Call}
    (hcall : ∀ slug app closes, call = some (.found slug app closes) → closes = 0) (j : ℕ)
    (slug : Slug) (app : Option SubApp) (closes : ℕ)
    (hj : (s.goOn i call).calls.lookup j = some (.found slug app closes)) : closes = 0 := by
  by_cases hji : j = i
  · subst hji
    exact hcall slug app closes (lookup_goOn.symm.trans hj)
  · exact h.found j slug app closes ((lookup_goOn_of_ne hji).symm.trans hj)

theorem goOn (h : s.Sound) {call : Option Call} (hfree : ∀ b, s.builder = some b → b.call ≠ i)
    (hcall : ∀ slug app closes, call = some (.found slug app closes) → closes = 0) :
    (s.goOn i call).Sound where
  router := h.router
  builder := h.builder
  apart b hb := (lookup_goOn_of_ne (hfree b hb)).trans (h.apart b hb)
  found := h.found_goOn hcall
  dispatched := h.dispatched

/-- A call is not the one that holds the build lock. -/
theorem free (h : s.Sound) {call : Call} (hcall : s.calls.lookup i = some call) (b : Builder)
    (hb : s.builder = some b) : b.call ≠ i := by
  rintro rfl
  exact nomatch (h.apart b hb).symm.trans hcall

theorem setRouter (h : s.Sound) {router : SubMcpAppRouter} (hrouter : router.Sound s.loose)
    (hcaptured : ∀ slug config gen, s.router.Captured slug config gen →
      router.Captured slug config gen) : (s.setRouter router).Sound where
  router := hrouter
  builder b hb := (h.builder b hb).mono (hcaptured b.slug)
  apart := h.apart
  found := h.found
  dispatched := h.dispatched

theorem bound (h : s.Sound) {config : RouteConfig} :
    (s.setRouter (s.router.registerSubMcpApp slug config)).Sound :=
  h.setRouter h.router.registerSubMcpApp fun _ _ _ hcaptured => hcaptured.registerSubMcpApp

theorem unbound (h : s.Sound) : (s.setRouter (s.router.popSlugLocked slug)).Sound :=
  h.setRouter h.router.popSlugLocked fun _ _ _ hcaptured => hcaptured.popSlugLocked

theorem start (h : s.Sound) {call : Call} (hs' : s.start i call = some s')
    (hcall : ∀ slug app closes, call ≠ .found slug app closes) : s'.Sound := by
  unfold Worker.start at hs'
  split_ifs at hs' with hfree
  obtain rfl := Option.some.inj hs'
  refine h.goOn (fun b hb heq => hfree (Or.inr ⟨b, hb, heq⟩)) fun slug app closes heq => ?_
  exact absurd (Option.some.inj heq) (hcall slug app closes)

theorem afterClose (h : s.Sound) {stale : Option ℕ} {request : Option Slug}
    (hfree : ∀ b, s.builder = some b → b.call ≠ i) :
    (s.goOn i (afterClose stale request)).Sound := by
  refine h.goOn hfree fun slug app closes heq => ?_
  cases stale <;> cases request <;> cases heq

theorem look (h : s.Sound) (hfree : ∀ b, s.builder = some b → b.call ≠ i) :
    (s.look i slug).Sound := by
  unfold Worker.look
  split
  · next app hcached =>
    refine h.goOn hfree fun _ _ _ heq => ?_
    obtain ⟨rfl, rfl, rfl⟩ := Call.found.inj (Option.some.inj heq)
    exact h.closesOf_cached hcached
  · split_ifs
    · exact h.goOn hfree nofun
    · exact h.goOn hfree nofun

theorem dispatch (h : s.Sound) {app : Option SubApp} {closes : ℕ}
    (hfree : ∀ b, s.builder = some b → b.call ≠ i) (hcloses : closes = 0) :
    (s.dispatch i slug app closes).Sound := by
  have hover : (s.goOn i none).Sound := h.goOn hfree nofun
  unfold Worker.dispatch
  split
  · refine ⟨hover.router, hover.builder, hover.apart, hover.found, fun d hd => ?_⟩
    obtain rfl | hd := List.mem_cons.mp hd
    · exact hcloses
    · exact h.dispatched d hd
  · exact hover

theorem advance (h : s.Sound) {call : Call} {ok : Bool} (hcall : s.calls.lookup i = some call)
    (hs' : s.advance i ok call = some s') : s'.Sound := by
  have hfree := h.free hcall
  cases call with
  | saving slug config =>
    obtain rfl := Option.some.inj hs'
    have hsaved : (s.saveRoute slug config).Sound :=
      ⟨h.router, h.builder, h.apart, h.found, h.dispatched⟩
    exact hsaved.goOn hfree nofun
  | saved slug config =>
    obtain rfl := Option.some.inj hs'
    exact h.bound.afterClose hfree
  | deleting slug =>
    obtain rfl := Option.some.inj hs'
    have hdeleted : (s.deleteRoute slug).Sound :=
      ⟨h.router, h.builder, h.apart, h.found, h.dispatched⟩
    exact hdeleted.goOn hfree nofun
  | deleted slug =>
    simp only [Worker.advance] at hs'
    split_ifs at hs'
    · obtain rfl := Option.some.inj hs'
      exact h.goOn hfree nofun
    · obtain rfl := Option.some.inj hs'
      exact h.goOn hfree nofun
  | unbinding slug =>
    obtain rfl := Option.some.inj hs'
    exact h.unbound.afterClose hfree
  | awaiting lifespan request =>
    simp only [Worker.advance, Option.ite_none_right_eq_some, Option.some.injEq] at hs'
    obtain ⟨-, rfl⟩ := hs'
    refine h.goOn hfree fun _ _ _ heq => ?_
    cases ok <;> cases request <;> cases heq
  | reloading =>
    obtain rfl := Option.some.inj hs'
    exact h.goOn hfree nofun
  | rebinding rest =>
    simp only [Worker.advance, Option.ite_none_right_eq_some, Option.some.injEq] at hs'
    obtain ⟨-, rfl⟩ := hs'
    exact h.goOn hfree nofun
  | arrived slug =>
    obtain rfl := Option.some.inj hs'
    exact h.look hfree
  | asking slug =>
    obtain rfl := Option.some.inj hs'
    refine h.goOn hfree fun _ _ _ heq => ?_
    obtain ⟨config, -, heq⟩ := Option.map_eq_some_iff.mp heq
    cases heq
  | answered slug config =>
    obtain rfl := Option.some.inj hs'
    exact h.bound.afterClose hfree
  | queued slug =>
    simp only [Worker.advance] at hs'
    split at hs'
    · cases hs'
    · next hunlocked =>
      obtain rfl := Option.some.inj hs'
      have hover : (s.goOn i none).Sound := h.goOn hfree nofun
      refine ⟨?_, fun b hb => ?_, fun b hb => ?_, hover.found, hover.dispatched⟩
      · have hrouter := h.router
        simp only [loose, hunlocked] at hrouter
        exact hrouter
      · obtain rfl := Option.some.inj hb
        trivial
      · obtain rfl := Option.some.inj hb
        exact Finmap.lookup_erase _ _
  | found slug app closes =>
    obtain rfl := Option.some.inj hs'
    exact h.dispatch hfree (h.found i slug app closes hcall)

/-! ### The build -/

theorem setPhase (h : s.Sound) (hb : s.builder = some b) {phase : Phase}
    (hrouter : s.router.Sound phase.loose) (hphase : phase.Sound s.router b.slug) :
    (s.setPhase b phase).Sound where
  router := hrouter
  builder b' hb' := by
    obtain rfl := Option.some.inj hb'
    exact hphase
  apart b' hb' := by
    obtain rfl := Option.some.inj hb'
    exact h.apart b hb
  found := h.found
  dispatched := h.dispatched

theorem unlock (h : s.Sound) {call : Option Call} (hrouter : s.router.Sound 0)
    (hcall : ∀ slug app closes, call = some (.found slug app closes) → closes = 0) :
    (s.unlock b call).Sound where
  router := hrouter
  builder := nofun
  apart := nofun
  found := h.found_goOn hcall
  dispatched := h.dispatched

theorem lookAgain (h : s.Sound) (hb : s.builder = some b) (hloose : s.loose = 0) :
    (s.lookAgain b).Sound := by
  have hrouter : s.router.Sound 0 := hloose ▸ h.router
  unfold Worker.lookAgain
  split
  · next app hcached =>
    refine h.unlock hrouter fun _ _ _ heq => ?_
    obtain ⟨rfl, rfl, rfl⟩ := Call.found.inj (Option.some.inj heq)
    exact h.closesOf_cached hcached
  · next huncached =>
    split
    · next config gen hroute hgen =>
      exact h.setPhase hb hrouter (h.router.captured huncached hroute hgen)
    · exact h.unlock hrouter nofun

theorem enter (h : s.Sound) {config : RouteConfig} {gen : ℕ} (hb : s.builder = some b)
    (hloose : s.loose = 0) (hcaptured : s.router.Captured b.slug config gen) :
    (s.enter b config gen).Sound := by
  have hrouter : s.router.Sound 0 := hloose ▸ h.router
  unfold Worker.enter
  split_ifs with hstdio
  · exact h.setPhase hb hrouter ⟨hcaptured, hstdio⟩
  · refine ⟨hrouter.setLifespans rfl hrouter.conserved.acquire, fun b' hb' => ?_,
      fun b' hb' => ?_, h.found, h.dispatched⟩
    all_goals obtain rfl := Option.some.inj hb'
    · exact ⟨⟨hcaptured.le, hcaptured.config, hcaptured.uncached⟩, rfl⟩
    · exact h.apart b hb

theorem settle (h : s.Sound) {config : RouteConfig} {gen : ℕ} {app : Option SubApp}
    (hb : s.builder = some b) (hphase : b.phase = .built config gen app) :
    (s.settle b gen app).Sound := by
  have hsound := h.builder b hb
  rw [hphase] at hsound
  have hloose : s.loose = (Phase.built config gen app).loose := by
    simp only [loose, hb, Option.map_some, Option.getD_some, hphase]
  have hrouter := hloose ▸ h.router
  unfold Worker.settle
  split_ifs with hgen
  · -- the token is still the slug's: the app is cached, and its lifespan held
    have hclosed : s.closesOf app = 0 := by
      cases app with
      | none => rfl
      | some app =>
        exact hrouter.conserved.count_closed_of_loose (Multiset.mem_singleton_self _)
    have hfound : ∀ slug found closes,
        some (Call.found b.slug app (s.closesOf app)) = some (.found slug found closes) →
          closes = 0 := by
      intro _ _ _ heq
      obtain ⟨rfl, rfl, rfl⟩ := Call.found.inj (Option.some.inj heq)
      exact hclosed
    cases app with
    | none =>
      obtain ⟨hcaptured, hstdio⟩ := hsound
      exact ⟨hrouter.record_none hcaptured hgen hstdio, nofun, nofun, h.found_goOn hfound,
        h.dispatched⟩
    | some app =>
      obtain ⟨hcaptured, rfl⟩ := hsound
      exact ⟨hrouter.record_some hcaptured hgen, nofun, nofun, h.found_goOn hfound, h.dispatched⟩
  · cases app with
    | none =>
      simp only
      split_ifs
      · exact h.unlock hrouter nofun
      · exact h.setPhase hb hrouter trivial
    | some app =>
      refine ⟨hrouter.setLifespans rfl hrouter.conserved.discard, fun b' hb' => ?_,
        fun b' hb' => ?_, h.found, h.dispatched⟩
      all_goals obtain rfl := Option.some.inj hb'
      · trivial
      · exact h.apart b hb

theorem buildOn (h : s.Sound) {ok : Bool} (hb : s.builder = some b)
    (hs' : s.buildOn ok b = some s') : s'.Sound := by
  have hphase := h.builder b hb
  have hloose : s.loose = b.phase.loose := by
    simp only [loose, hb, Option.map_some, Option.getD_some]
  unfold Worker.buildOn at hs'
  split at hs'
  · next hlooking =>
    obtain rfl := Option.some.inj hs'
    exact h.lookAgain hb (by rw [hloose, hlooking]; rfl)
  · next config gen hbuilding =>
    obtain rfl := Option.some.inj hs'
    have hnone : s.loose = 0 := by
      rw [hloose, hbuilding]
      rfl
    rw [hbuilding] at hphase
    cases ok with
    | true => exact h.enter hb hnone hphase
    | false => exact h.unlock (hnone ▸ h.router) nofun
  · next config gen app hbuilt =>
    obtain rfl := Option.some.inj hs'
    exact h.settle hb hbuilt
  · next lifespan vanished hdiscarding =>
    have hrouter : s.router.Sound 0 := by
      have hrouter := h.router
      rw [hloose, hdiscarding] at hrouter
      exact hrouter
    simp only [Option.ite_none_right_eq_some, Option.some.injEq] at hs'
    obtain ⟨-, rfl⟩ := hs'
    split_ifs
    · exact h.setPhase hb hrouter trivial
    · exact h.unlock hrouter nofun

/-! ### Every step -/

theorem step {a : Act} (h : s.Sound) (hs' : s.next a = some s') : s'.Sound := by
  cases a with
  | register i slug tools transport =>
    simp only [Worker.next] at hs'
    split at hs'
    · obtain rfl := Option.some.inj hs'
      exact h
    · exact h.start hs' nofun
  | unregister i slug =>
    simp only [Worker.next] at hs'
    split at hs'
    · obtain rfl := Option.some.inj hs'
      exact h
    · exact h.start hs' nofun
  | reload i =>
    have hreset : (s.setRouter s.router.reset).Sound :=
      h.setRouter h.router.reset fun _ _ _ hcaptured => hcaptured.reset
    exact hreset.start hs' nofun
  | request i slug =>
    simp only [Worker.next] at hs'
    split at hs'
    · obtain rfl := Option.some.inj hs'
      exact h
    · exact h.start hs' nofun
  | advance i ok =>
    obtain ⟨call, hcall, hs'⟩ := Option.bind_eq_some_iff.mp hs'
    exact h.advance hcall hs'
  | rebind i slug =>
    simp only [Worker.next] at hs'
    split at hs'
    · next rest hcall =>
      obtain ⟨config, -, rfl⟩ := Option.map_eq_some_iff.mp hs'
      exact h.bound.goOn (h.free hcall) nofun
    · cases hs'
  | build ok =>
    obtain ⟨b, hb, hs'⟩ := Option.bind_eq_some_iff.mp hs'
    exact h.buildOn hb hs'
  | close lifespan =>
    simp only [Worker.next, Option.ite_none_right_eq_some, Option.some.injEq] at hs'
    obtain ⟨hclosing, rfl⟩ := hs'
    exact h.setRouter (h.router.setLifespans rfl (h.router.conserved.close hclosing))
      fun _ _ _ hcaptured => ⟨hcaptured.le, hcaptured.config, hcaptured.uncached⟩

theorem of_reachable (h : system.Reachable s) : s.Sound := by
  refine h.invariant (p := Sound) ?_ fun _ _ _ hsound hstep => hsound.step hstep
  rintro _ ⟨store, rfl⟩
  exact ⟨.first, nofun, nofun, nofun, nofun⟩

end Sound

/-! ## Routes -/

/-- The slug is bound as the store has it, or a call has yet to see to that. -/
def Settled (s : Worker) (slug : Slug) : Prop :=
  s.router.routes slug = s.store.lookup slug ∨
    ∃ j call, s.calls.lookup j = some call ∧ call.owes s.store slug = true

theorem OwedBeside.owed (h : s.OwedBeside i slug) :
    ∃ j, j ≠ i ∧ ∃ call, s.calls.lookup j = some call ∧ call.owes s.store slug = true := by
  obtain ⟨j, -, hj, hany⟩ := h
  obtain ⟨call, hcall, howes⟩ := (Option.any_eq_true _ _).mp hany
  exact ⟨j, hj, call, hcall, howes⟩

namespace Settled

variable {call : Option Call}

/-- A call goes on, and owes for the slug still if it has owed before. -/
theorem goOn (h : s.Settled slug)
    (hcall : ∀ old, s.calls.lookup i = some old → old.owes s.store slug = true →
      ∃ new, call = some new ∧ new.owes s.store slug = true) :
    (s.goOn i call).Settled slug := by
  obtain heq | ⟨j, old, hold, howes⟩ := h
  · exact Or.inl heq
  · right
    by_cases hj : j = i
    · subst hj
      obtain ⟨new, rfl, hnew⟩ := hcall old hold howes
      exact ⟨j, new, lookup_goOn, hnew⟩
    · exact ⟨j, old, (lookup_goOn_of_ne hj).trans hold, howes⟩

/-- A call that does not owe for the slug goes on. -/
theorem goOn_of_not_owes (h : s.Settled slug) {old : Call} (hold : s.calls.lookup i = some old)
    (hnot : old.owes s.store slug = false) : (s.goOn i call).Settled slug :=
  h.goOn fun other hother howes => by
    obtain rfl := Option.some.inj (hold.symm.trans hother)
    exact absurd howes (by rw [hnot]; exact Bool.false_ne_true)

/-- A call that owes for the slug goes on. -/
theorem of_owes {new : Call} (hnew : new.owes s.store slug = true) :
    (s.goOn i (some new)).Settled slug :=
  Or.inr ⟨i, new, lookup_goOn, hnew⟩

/-- A call has bound the slug in time. -/
theorem of_timely {target : Option RouteConfig} (h : s.Timely i slug target)
    (hroute : s.router.routes slug = target) : (s.goOn i call).Settled slug := by
  obtain hstore | howed := h
  · exact Or.inl (hroute.trans hstore.symm)
  · obtain ⟨j, hj, old, hold, howes⟩ := howed.owed
    exact Or.inr ⟨j, old, (lookup_goOn_of_ne hj).trans hold, howes⟩

theorem start (h : s.Settled slug) {new : Call} (hs' : s.start i new = some s') :
    s'.Settled slug := by
  unfold Worker.start at hs'
  split_ifs at hs' with hfree
  obtain rfl := Option.some.inj hs'
  refine h.goOn fun old hold _ => ?_
  exact absurd (Finmap.mem_of_lookup_eq_some hold) fun hmem => hfree (Or.inl hmem)

/-- The router binds another slug. -/
theorem setRouter (h : s.Settled slug) {router : SubMcpAppRouter}
    (hroute : router.routes slug = s.router.routes slug) : (s.setRouter router).Settled slug :=
  h.imp (fun heq => hroute.trans heq) id

/-- The store holds as much of the slug as before. -/
theorem setStore (h : s.Settled slug) {store : Finmap fun _ : Slug => RouteConfig}
    {written : Finset Slug} (hstore : store.lookup slug = s.store.lookup slug) :
    Settled { s with store := store, written := written } slug := by
  obtain heq | ⟨j, call, hcall, howes⟩ := h
  · exact Or.inl (heq.trans hstore.symm)
  · refine Or.inr ⟨j, call, hcall, ?_⟩
    have hmem : slug ∈ store ↔ slug ∈ s.store := by
      rw [Finmap.mem_iff, Finmap.mem_iff, hstore]
    cases call with
    | reloading => simpa only [Call.owes, hmem] using howes
    | _ => exact howes

end Settled

/-- Every slug that the worker has written or deleted is settled. -/
def Follows (s : Worker) : Prop := ∀ slug ∈ s.written, s.Settled slug

theorem route_registerSubMcpApp {router : SubMcpAppRouter} {config : RouteConfig} :
    (router.registerSubMcpApp slug config).routes slug = some config := by
  simp only [SubMcpAppRouter.registerSubMcpApp, SubMcpAppRouter.stamp, Function.update_self]

theorem route_registerSubMcpApp_of_ne {router : SubMcpAppRouter} {config : RouteConfig}
    {other : Slug} (h : other ≠ slug) :
    (router.registerSubMcpApp slug config).routes other = router.routes other :=
  congrArg Entry.route (SubMcpAppRouter.entry_registerSubMcpApp_of_ne h)

/-- A call that owes for no other slug binds its slug in time. -/
theorem Settled.bound {call : Option Call} {old : Call} {config : RouteConfig} {other : Slug}
    (h : s.Settled other) (hold : s.calls.lookup i = some old)
    (howes : other ≠ slug → old.owes s.store other = true →
      ∃ new, call = some new ∧ new.owes s.store other = true)
    (htimely : s.Timely i slug (some config)) :
    ((s.setRouter (s.router.registerSubMcpApp slug config)).goOn i call).Settled other := by
  by_cases hother : other = slug
  · subst hother
    exact .of_timely (s := s.setRouter _) htimely route_registerSubMcpApp
  · refine (h.setRouter (route_registerSubMcpApp_of_ne hother)).goOn fun found hfound hfoundOwes => ?_
    obtain rfl := Option.some.inj (hold.symm.trans hfound)
    exact howes hother hfoundOwes

namespace Follows

/-- A call that owes for no slug ends. -/
theorem ended (h : s.Follows) {call : Call} (hcall : s.calls.lookup i = some call)
    (hnot : ∀ slug, call.owes s.store slug = false) : (s.goOn i none).Follows :=
  fun other hother => (h other hother).goOn_of_not_owes hcall (hnot other)

theorem advance (h : s.Follows) {call : Call} {ok : Bool} (hcall : s.calls.lookup i = some call)
    (hok : s.orderly (.advance i ok) = true) (hs' : s.advance i ok call = some s') :
    s'.Follows := by
  simp only [orderly, hcall] at hok
  cases call with
  | saving slug config =>
    obtain rfl := Option.some.inj hs'
    intro other hother
    obtain rfl | hold := Finset.mem_insert.mp hother
    · exact .of_owes (decide_eq_true rfl)
    · by_cases hne : other = slug
      · exact .of_owes (decide_eq_true hne.symm)
      · exact ((h other hold).setStore (Finmap.lookup_insert_of_ne _ hne)).goOn_of_not_owes hcall rfl
  | saved slug config =>
    obtain rfl := Option.some.inj hs'
    refine fun other hother => (h other hother).bound hcall (fun hne howes => ?_)
      (of_decide_eq_true hok)
    exact absurd (of_decide_eq_true howes).symm hne
  | deleting slug =>
    obtain rfl := Option.some.inj hs'
    intro other hother
    obtain rfl | hold := Finset.mem_insert.mp hother
    · exact .of_owes (decide_eq_true rfl)
    · by_cases hne : other = slug
      · exact .of_owes (decide_eq_true hne.symm)
      · exact ((h other hold).setStore (Finmap.lookup_erase_ne hne)).goOn_of_not_owes hcall rfl
  | deleted slug =>
    simp only [Worker.advance] at hs'
    split_ifs at hs' with hbound
    · obtain rfl := Option.some.inj hs'
      refine fun other hother => (h other hother).goOn fun old hold howes => ?_
      obtain rfl := Option.some.inj (hcall.symm.trans hold)
      exact ⟨_, rfl, howes⟩
    · obtain rfl := Option.some.inj hs'
      intro other hother
      by_cases hne : other = slug
      · subst hne
        have htimely : s.Timely i other none := by
          rw [Bool.or_eq_true] at hok
          exact of_decide_eq_true (hok.resolve_left hbound)
        exact .of_timely htimely (by simpa using hbound)
      · refine (h other hother).goOn_of_not_owes hcall ?_
        exact decide_eq_false fun heq => hne heq.symm
  | unbinding slug =>
    obtain rfl := Option.some.inj hs'
    intro other hother
    by_cases hne : other = slug
    · subst hne
      exact .of_timely (s := s.setRouter _) (of_decide_eq_true hok) (Function.update_self ..)
    · refine ((h other hother).setRouter (Function.update_of_ne hne ..)).goOn_of_not_owes hcall ?_
      exact decide_eq_false fun heq => hne heq.symm
  | awaiting lifespan request =>
    simp only [Worker.advance, Option.ite_none_right_eq_some, Option.some.injEq] at hs'
    obtain ⟨-, rfl⟩ := hs'
    exact fun other hother => (h other hother).goOn_of_not_owes hcall rfl
  | reloading =>
    obtain rfl := Option.some.inj hs'
    refine fun other hother => (h other hother).goOn fun old hold howes => ?_
    obtain rfl := Option.some.inj (hcall.symm.trans hold)
    exact ⟨_, rfl, howes⟩
  | rebinding rest =>
    simp only [Worker.advance, Option.ite_none_right_eq_some, Option.some.injEq] at hs'
    obtain ⟨rfl, rfl⟩ := hs'
    refine fun other hother => (h other hother).goOn_of_not_owes hcall ?_
    simp only [Call.owes, Finmap.notMem_empty, decide_false]
  | arrived slug =>
    obtain rfl := Option.some.inj hs'
    unfold Worker.look
    split
    · exact fun other hother => (h other hother).goOn_of_not_owes hcall rfl
    · split_ifs
      · exact fun other hother => (h other hother).goOn_of_not_owes hcall rfl
      · exact fun other hother => (h other hother).goOn_of_not_owes hcall rfl
  | asking slug =>
    obtain rfl := Option.some.inj hs'
    exact fun other hother => (h other hother).goOn_of_not_owes hcall rfl
  | answered slug config =>
    obtain rfl := Option.some.inj hs'
    exact fun other hother => (h other hother).bound hcall (fun _ howes => nomatch howes)
      (of_decide_eq_true hok)
  | queued slug =>
    simp only [Worker.advance] at hs'
    split at hs'
    · cases hs'
    · obtain rfl := Option.some.inj hs'
      exact h.ended hcall fun _ => rfl
  | found slug app closes =>
    obtain rfl := Option.some.inj hs'
    unfold Worker.dispatch
    split
    · exact h.ended hcall fun _ => rfl
    · exact h.ended hcall fun _ => rfl

/-- The request that holds the build lock gives it back. -/
theorem unlock (h : s.Follows) (hfree : s.calls.lookup b.call = none) {call : Option Call} :
    (s.unlock b call).Follows := by
  have hover : (s.goOn b.call call).Follows := fun other hother =>
    (h other hother).goOn fun old hold => nomatch hfree.symm.trans hold
  exact hover

theorem buildOn (h : s.Follows) {ok : Bool} (hfree : s.calls.lookup b.call = none)
    (hs' : s.buildOn ok b = some s') : s'.Follows := by
  unfold Worker.buildOn at hs'
  split at hs'
  · obtain rfl := Option.some.inj hs'
    unfold Worker.lookAgain
    split
    · exact h.unlock hfree
    · split
      · exact h
      · exact h.unlock hfree
  · obtain rfl := Option.some.inj hs'
    split
    · unfold Worker.enter
      split
      · exact h
      · exact h
    · exact h.unlock hfree
  · next config gen app _ =>
    obtain rfl := Option.some.inj hs'
    unfold Worker.settle
    split
    · have hrecorded : (s.setRouter (s.router.record b.slug app)).Follows := h
      exact hrecorded.unlock hfree
    · cases app with
      | some app => exact h
      | none =>
        simp only
        split
        · exact h.unlock hfree
        · exact h
  · simp only [Option.ite_none_right_eq_some, Option.some.injEq] at hs'
    obtain ⟨-, rfl⟩ := hs'
    split
    · exact h
    · exact h.unlock hfree

theorem start (h : s.Follows) {call : Call} (hs' : s.start i call = some s') : s'.Follows := by
  have hwritten : s'.written = s.written := by
    unfold Worker.start at hs'
    split_ifs at hs'
    obtain rfl := Option.some.inj hs'
    rfl
  exact fun other hother => (h other (hwritten ▸ hother)).start hs'

/-- A reset leaves every slug to the reload. -/
theorem reload (hs' : (s.setRouter s.router.reset).start i .reloading = some s') :
    s'.Follows := by
  unfold Worker.start at hs'
  split_ifs at hs'
  obtain rfl := Option.some.inj hs'
  intro slug _
  cases hstored : s.store.lookup slug with
  | none => exact Or.inl hstored.symm
  | some config => exact .of_owes (decide_eq_true (Finmap.mem_of_lookup_eq_some hstored))

theorem rebind (h : s.Follows) {rest : Finmap fun _ : Slug => RouteConfig}
    (hcall : s.calls.lookup i = some (.rebinding rest))
    (hok : s.orderly (.rebind i slug) = true) (hs' : s.rebind i slug rest = some s') :
    s'.Follows := by
  obtain ⟨config, hconfig, rfl⟩ := Option.map_eq_some_iff.mp hs'
  simp only [orderly, hcall, hconfig, Option.all_some] at hok
  refine fun other hother => (h other hother).bound hcall (fun hne howes => ⟨_, rfl, ?_⟩)
    (of_decide_eq_true hok)
  exact decide_eq_true (Finmap.mem_erase.mpr ⟨hne, of_decide_eq_true howes⟩)

theorem step {a : Act} (h : s.Follows) (hsound : s.Sound) (hok : s.orderly a = true)
    (hs' : s.next a = some s') : s'.Follows := by
  cases a with
  | register i slug tools transport =>
    simp only [Worker.next] at hs'
    split at hs'
    · obtain rfl := Option.some.inj hs'
      exact h
    · exact h.start hs'
  | unregister i slug =>
    simp only [Worker.next] at hs'
    split at hs'
    · obtain rfl := Option.some.inj hs'
      exact h
    · exact h.start hs'
  | reload i => exact reload hs'
  | request i slug =>
    simp only [Worker.next] at hs'
    split at hs'
    · obtain rfl := Option.some.inj hs'
      exact h
    · exact h.start hs'
  | advance i ok =>
    obtain ⟨call, hcall, hs'⟩ := Option.bind_eq_some_iff.mp hs'
    exact h.advance hcall hok hs'
  | rebind i slug =>
    simp only [Worker.next] at hs'
    split at hs'
    · next rest hcall => exact h.rebind hcall hok hs'
    · cases hs'
  | build ok =>
    obtain ⟨b, hb, hs'⟩ := Option.bind_eq_some_iff.mp hs'
    exact h.buildOn (hsound.apart b hb) hs'
  | close lifespan =>
    simp only [Worker.next, Option.ite_none_right_eq_some, Option.some.injEq] at hs'
    obtain ⟨-, rfl⟩ := hs'
    exact h

theorem of_reachable (h : (system.when fun s a => s.orderly a = true).Reachable s) :
    s.Follows := by
  suffices s.Sound ∧ s.Follows from this.2
  refine h.invariant (p := fun s => s.Sound ∧ s.Follows) ?_ ?_
  · rintro _ ⟨store, rfl⟩
    exact ⟨.of_reachable (.of_init ⟨store, rfl⟩), nofun⟩
  · rintro s a s' ⟨hsound, hfollows⟩ ⟨hok, hstep⟩
    exact ⟨hsound.step hstep, hfollows.step hsound hok hstep⟩

end Follows

/-! ## At rest -/

/-- At rest nothing is loose or owed. -/
theorem Sound.followsStore (h : s.Sound) (hfollows : s.Follows) (hdone : s.Done) :
    s.FollowsStore := by
  obtain ⟨hcalls, hbuilder, hclosing⟩ := hdone
  have hloose : s.loose = 0 := by
    simp only [loose, Option.isNone_iff_eq_none.mp hbuilder, Option.map_none, Option.getD_none]
  refine ⟨fun slug hslug => ?_, fun slug app happ => ((h.router.entry slug).cached app happ).1,
    fun slug => (h.router.entry slug).stdio, fun slug i hi => ?_, fun i hi => ?_, h.dispatched⟩
  · obtain heq | ⟨j, call, hcall, -⟩ := hfollows slug hslug
    · exact heq
    · rw [hcalls] at hcall
      exact nomatch (Finmap.lookup_empty j).symm.trans hcall
  · obtain ⟨app, happ⟩ := (h.router.entry slug).held i hi
    obtain ⟨-, hlifespan⟩ := (h.router.entry slug).cached app happ
    exact ⟨⟨app, happ, Option.some.inj (hlifespan.symm.trans hi)⟩,
      h.router.conserved.count_closed_of_held hi⟩
  · have hconserved := h.router.conserved
    rw [hloose] at hconserved
    exact hconserved.held_or_closed hclosing hi

/-- After an orderly run the router follows the store. -/
theorem followsStore_of_orderly (h : (system.when fun s a => s.orderly a = true).Reachable s)
    (hdone : s.Done) : s.FollowsStore :=
  (Sound.of_reachable h.of_when).followsStore (.of_reachable h) hdone

/-- An app is requested before and after its slug is replaced, and a reload follows. -/
def replacedAndReloaded : List Act :=
  [.register 0 "a" ["t"] "http", .advance 0 true, .advance 0 true] ++
    .request 1 "a" :: List.replicate 2 (.advance 1 true) ++ List.replicate 3 (.build true) ++
    .advance 1 true :: .register 0 "a" ["u"] "sse" :: List.replicate 2 (.advance 0 true) ++
    .close 0 :: .advance 0 true :: .request 1 "a" :: List.replicate 2 (.advance 1 true) ++
    List.replicate 3 (.build true) ++ .advance 1 true :: .reload 2 :: .advance 2 true ::
    (Slug.ofString? "a").toList.map (.rebind 2) ++ [.advance 2 true, .close 1]

/-- That run ends with both requests served and the slug bound as the store has it. -/
theorem replaced_follows : ∃ s : Worker, s.FollowsStore ∧ s.written.Nonempty ∧
    s.dispatched.length = 2 := by
  obtain ⟨s, hs, hp⟩ := System.Reachable.of_foldlM
    (S := system.when fun s a => s.orderly a = true) (f := System.guarded Worker.next orderly)
    (s := { store := ∅ }) (l := replacedAndReloaded)
    (p := fun s => decide s.Done && decide s.written.Nonempty && s.dispatched.length == 2)
    (fun s a s' h => System.step_of_guarded h) ⟨∅, rfl⟩ (by decide +kernel)
  simp only [Bool.and_eq_true, decide_eq_true_eq, beq_iff_eq] at hp
  obtain ⟨⟨hdone, hwritten⟩, hlength⟩ := hp
  exact ⟨s, followsStore_of_orderly hs hdone, hwritten, hlength⟩

/-! ## A step that is not orderly -/

/-- What a call binds stays wrong, if the store has moved on and no other call is to follow. -/
theorem not_settled_of_not_timely {target : Option RouteConfig} {call : Option Call}
    (h : ¬ s.Timely i slug target) (hroute : s.router.routes slug = target)
    (hcall : ∀ new, call = some new → new.owes s.store slug = false) :
    ¬ (s.goOn i call).Settled slug := by
  obtain ⟨hstore, howed⟩ := not_or.mp h
  rintro (heq | ⟨j, new, hnew, howes⟩)
  · exact hstore (heq.symm.trans hroute)
  · by_cases hj : j = i
    · subst hj
      have hfalse := hcall new (lookup_goOn.symm.trans hnew)
      exact absurd (hfalse.symm.trans howes) Bool.false_ne_true
    · have hold := (lookup_goOn_of_ne hj).symm.trans hnew
      refine howed ⟨j, Finmap.mem_keys.mpr (Finmap.mem_of_lookup_eq_some hold), hj, ?_⟩
      rw [hold]
      exact howes

theorem not_owes_afterClose {stale : Option ℕ} {request : Option Slug} {new : Call}
    (h : afterClose stale request = some new) (store : Finmap fun _ : Slug => RouteConfig) :
    new.owes store slug = false := by
  cases stale with
  | some lifespan =>
    obtain rfl := Option.some.inj h
    rfl
  | none =>
    obtain ⟨request, -, rfl⟩ := Option.map_eq_some_iff.mp h
    rfl

/-- A step that is not orderly leaves a slug bound otherwise than the store has it, with no call to
set it right. -/
theorem unsettled_of_disorderly {a : Act} (hnot : s.orderly a = false) (hs' : s.next a = some s') :
    ∃ slug, ¬ s'.Settled slug := by
  cases a with
  | advance i ok =>
    obtain ⟨call, hcall, hs'⟩ := Option.bind_eq_some_iff.mp hs'
    simp only [orderly, hcall] at hnot
    cases call with
    | saved slug config | answered slug config =>
      obtain rfl := Option.some.inj hs'
      exact ⟨slug, not_settled_of_not_timely (s := s.setRouter _) (of_decide_eq_false hnot)
        route_registerSubMcpApp fun new hnew => not_owes_afterClose hnew _⟩
    | deleted slug =>
      obtain ⟨hunbound, huntimely⟩ := Bool.or_eq_false_iff.mp hnot
      simp only [Worker.advance, hunbound, Bool.false_eq_true, if_false] at hs'
      obtain rfl := Option.some.inj hs'
      exact ⟨slug, not_settled_of_not_timely (of_decide_eq_false huntimely)
        (by simpa using hunbound) nofun⟩
    | unbinding slug =>
      obtain rfl := Option.some.inj hs'
      exact ⟨slug, not_settled_of_not_timely (s := s.setRouter _) (of_decide_eq_false hnot)
        (Function.update_self ..) fun new hnew => not_owes_afterClose hnew _⟩
    | _ => cases hnot
  | rebind i slug =>
    simp only [Worker.next] at hs'
    split at hs'
    · next rest hcall =>
      obtain ⟨config, hconfig, rfl⟩ := Option.map_eq_some_iff.mp hs'
      simp only [orderly, hcall, hconfig, Option.all_some] at hnot
      refine ⟨slug, not_settled_of_not_timely (s := s.setRouter _) (of_decide_eq_false hnot)
        route_registerSubMcpApp fun new hnew => ?_⟩
      obtain rfl := Option.some.inj hnew
      exact decide_eq_false Finmap.notMem_erase_self
    · cases hs'
  | _ => cases hnot

/-- A request reads the registration of a slug that this worker does not know yet; the slug is bound
and deleted before the request binds what it has read. -/
def deletedBehindRequest : List Act :=
  [.register 0 "a" ["t"] "http", .advance 0 true] ++
    .request 1 "a" :: List.replicate 2 (.advance 1 true) ++
    .advance 0 true :: .unregister 2 "a" :: List.replicate 3 (.advance 2 true) ++
    List.replicate 2 (.advance 1 true) ++ List.replicate 3 (.build true) ++ [.advance 1 true]

/-- The deleted exposure is served again. -/
theorem deleted_served : ∃ s, system.Reachable s ∧ s.Done ∧ ¬ s.FollowsStore ∧
    ∃ d ∈ s.dispatched, s.store.lookup d.slug = none := by
  obtain ⟨s, hs, hp⟩ := System.Reachable.of_foldlM (S := system) (f := Worker.next)
    (s := { store := ∅ }) (l := deletedBehindRequest)
    (p := fun s => decide s.Done && decide (∃ slug ∈ s.written,
      s.router.routes slug ≠ s.store.lookup slug) &&
      s.dispatched.any fun d => (s.store.lookup d.slug).isNone)
    (fun s a s' h => h) ⟨∅, rfl⟩ (by decide +kernel)
  simp only [Bool.and_eq_true, decide_eq_true_eq, List.any_eq_true,
    Option.isNone_iff_eq_none] at hp
  obtain ⟨⟨hdone, slug, hslug, hne⟩, hserved⟩ := hp
  exact ⟨s, hs, hdone, fun hfollows => hne (hfollows.routes slug hslug), hserved⟩

end Worker

end TaiSkeleton.SubMcp
