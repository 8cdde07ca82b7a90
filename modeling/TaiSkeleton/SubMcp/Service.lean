import TaiSkeleton.Lib.Run
import TaiSkeleton.SubMcp.Router

/-!
# The service over the store and the router

Registrations and unregistrations write the store first and the router second; a reload resets the
router and registers what the store lists; a request builds the app of its slug, and registers a
slug that only the store knows. Each call on a worker takes its steps at the points where another
may come between: the calls to the store, the router's state lock, and the close of a lifespan.
-/

namespace TaiSkeleton.SubMcp

open Lib Tools

/-! ## Calls -/

/-- A call between two of its steps. -/
inductive Call where
  /-- `register_sub_mcp_app` of the service before `save_route` -/
  | saving (slug : Slug) (config : RouteConfig)
  | saved (slug : Slug) (config : RouteConfig)
  /-- `unregister_sub_mcp_app` of the service before `delete_route` -/
  | deleting (slug : Slug)
  | deleted (slug : Slug)
  | unbinding (slug : Slug)
  /-- A stale lifespan is being closed; a request goes on after it. -/
  | awaiting (lifespan : ℕ) (request : Option Slug)
  /-- `rehydrate_sub_mcp_apps` before `list_routes` -/
  | reloading
  | rebinding (rest : Finmap fun _ : Slug => RouteConfig)
  /-- `_get_or_build_app` -/
  | arrived (slug : Slug)
  /-- The slug is unknown, and `get_route` is called. -/
  | asking (slug : Slug)
  | answered (slug : Slug) (config : RouteConfig)
  /-- A request at the build lock. -/
  | queued (slug : Slug)
  /-- An app was found, or built, when its lifespan had been closed that many times. -/
  | found (slug : Slug) (app : Option SubApp) (closes : ℕ)
deriving DecidableEq

/-- Where the loop of `_get_or_build_app` is. -/
inductive Phase where
  | looking
  | building (config : RouteConfig) (gen : ℕ)
  | built (config : RouteConfig) (gen : ℕ) (app : Option SubApp)
  | discarding (lifespan : ℕ) (vanished : Bool)

/-- The request that holds the build lock. -/
structure Builder where
  call : ℕ
  slug : Slug
  phase : Phase

/-- A request that has been handed to an app, with how often the app's lifespan had been closed when
the app was looked up. -/
structure Dispatch where
  slug : Slug
  config : RouteConfig
  app : SubApp
  closes : ℕ

/-- A worker with the store; `written` are the slugs that it has written or deleted. -/
structure Worker where
  store : Finmap fun _ : Slug => RouteConfig
  router : SubMcpAppRouter := {}
  calls : Finmap fun _ : ℕ => Call := ∅
  builder : Option Builder := none
  written : Finset Slug := ∅
  dispatched : List Dispatch := []

/-- What begins, and what goes on: a call takes its next step, a reload registers the next slug, the
build goes on, a lifespan is closed. `ok` is false where the build of an app or the close of a
lifespan raises. -/
inductive Act where
  | register (i : ℕ) (slug : String) (tools : List String) (transport : String)
  | unregister (i : ℕ) (slug : String)
  | reload (i : ℕ)
  | request (i : ℕ) (slug : String)
  | advance (i : ℕ) (ok : Bool)
  | rebind (i : ℕ) (slug : Slug)
  | build (ok : Bool)
  | close (lifespan : ℕ)

namespace Worker

/-! ## Steps -/

/-- A call goes on, or is over. -/
def goOn (s : Worker) (i : ℕ) (call : Option Call) : Worker :=
  { s with calls :=
      match call with
      | none => s.calls.erase i
      | some call => s.calls.insert i call }

def setRouter (s : Worker) (router : SubMcpAppRouter) : Worker := { s with router := router }

/-- `save_route` -/
def saveRoute (s : Worker) (slug : Slug) (config : RouteConfig) : Worker :=
  { s with store := s.store.insert slug config, written := insert slug s.written }

/-- `delete_route` -/
def deleteRoute (s : Worker) (slug : Slug) : Worker :=
  { s with store := s.store.erase slug, written := insert slug s.written }

/-- What remains of a call after it has taken a lifespan out of the router. -/
def afterClose (stale : Option ℕ) (request : Option Slug) : Option Call :=
  match stale with
  | some lifespan => some (.awaiting lifespan request)
  | none => request.map .queued

/-- `register_sub_mcp_app` of the router -/
def bind (s : Worker) (i : ℕ) (slug : Slug) (config : RouteConfig) (request : Option Slug) :
    Worker :=
  (s.setRouter (s.router.registerSubMcpApp slug config)).goOn i
    (afterClose (s.router.stale slug) request)

/-- `unregister_sub_mcp_app` of the router -/
def unbind (s : Worker) (i : ℕ) (slug : Slug) : Worker :=
  (s.setRouter (s.router.popSlugLocked slug)).goOn i
    (afterClose (s.router.lifespans.held.lookup slug) none)

/-- How often the lifespan of a found app has been closed. -/
def closesOf (s : Worker) (app : Option SubApp) : ℕ :=
  match app with
  | none => 0
  | some app => s.router.lifespans.closed.count app.lifespan

/-- The lookup of the fast path. -/
def look (s : Worker) (i : ℕ) (slug : Slug) : Worker :=
  match s.router.serverCache slug with
  | some app => s.goOn i (some (.found slug app (s.closesOf app)))
  | none =>
    if (s.router.routes slug).isSome then s.goOn i (some (.queued slug))
    else s.goOn i (some (.asking slug))

/-- `__call__` after `_get_or_build_app` -/
def dispatch (s : Worker) (i : ℕ) (slug : Slug) (app : Option SubApp) (closes : ℕ) : Worker :=
  match app, s.router.routes slug with
  | some app, some config =>
    { s.goOn i none with dispatched := ⟨slug, config, app, closes⟩ :: s.dispatched }
  | _, _ => s.goOn i none

/-- The next step of a call. -/
def advance (s : Worker) (i : ℕ) (ok : Bool) : Call → Option Worker
  | .saving slug config => some ((s.saveRoute slug config).goOn i (some (.saved slug config)))
  | .saved slug config => some (s.bind i slug config none)
  | .deleting slug => some ((s.deleteRoute slug).goOn i (some (.deleted slug)))
  | .deleted slug =>
    if (s.router.routes slug).isSome then some (s.goOn i (some (.unbinding slug)))
    else some (s.goOn i none)
  | .unbinding slug => some (s.unbind i slug)
  | .awaiting lifespan request =>
    if lifespan ∈ s.router.lifespans.closed then
      some (s.goOn i (if ok then request.map .queued else none))
    else none
  | .reloading => some (s.goOn i (some (.rebinding s.store)))
  | .rebinding rest => if rest = ∅ then some (s.goOn i none) else none
  | .arrived slug => some (s.look i slug)
  | .asking slug => some (s.goOn i ((s.store.lookup slug).map (.answered slug)))
  | .answered slug config => some (s.bind i slug config (some slug))
  | .queued slug =>
    match s.builder with
    | some _ => none
    | none => some { s.goOn i none with builder := some ⟨i, slug, .looking⟩ }
  | .found slug app closes => some (s.dispatch i slug app closes)

/-- A reload registers a slug of its list; a lifespan that this closes is not waited for. -/
def rebind (s : Worker) (i : ℕ) (slug : Slug) (rest : Finmap fun _ : Slug => RouteConfig) :
    Option Worker :=
  (rest.lookup slug).map fun config =>
    (s.setRouter (s.router.registerSubMcpApp slug config)).goOn i
      (some (.rebinding (rest.erase slug)))

/-! ## The build -/

def setPhase (s : Worker) (b : Builder) (phase : Phase) : Worker :=
  { s with builder := some { b with phase := phase } }

/-- The build lock is given back, and the request has an app, or is over. -/
def unlock (s : Worker) (b : Builder) (call : Option Call) : Worker :=
  { s.goOn b.call call with builder := none }

/-- The top of the loop. -/
def lookAgain (s : Worker) (b : Builder) : Worker :=
  match s.router.serverCache b.slug with
  | some app => s.unlock b (some (.found b.slug app (s.closesOf app)))
  | none =>
    match s.router.routes b.slug, s.router.routeGenerations b.slug with
    | some config, some gen => s.setPhase b (.building config gen)
    | _, _ => s.unlock b none

/-- `_build_sub_app` returns. -/
def enter (s : Worker) (b : Builder) (config : RouteConfig) (gen : ℕ) : Worker :=
  if config.transport = .stdio then s.setPhase b (.built config gen none)
  else
    (s.setRouter { s.router with lifespans := s.router.lifespans.acquire }).setPhase b
      (.built config gen (some ⟨config, s.router.lifespans.acquired⟩))

/-- The check of the token after the build. -/
def settle (s : Worker) (b : Builder) (gen : ℕ) (app : Option SubApp) : Worker :=
  if s.router.routeGenerations b.slug = some gen then
    (s.setRouter (s.router.record b.slug app)).unlock b (some (.found b.slug app (s.closesOf app)))
  else
    let vanished := (s.router.routeGenerations b.slug).isNone
    match app with
    | some app =>
      (s.setRouter { s.router with lifespans := s.router.lifespans.discard app.lifespan }).setPhase
        b (.discarding app.lifespan vanished)
    | none => if vanished then s.unlock b none else s.setPhase b .looking

def buildOn (s : Worker) (ok : Bool) (b : Builder) : Option Worker :=
  match b.phase with
  | .looking => some (s.lookAgain b)
  | .building config gen => some (if ok then s.enter b config gen else s.unlock b none)
  | .built _ gen app => some (s.settle b gen app)
  | .discarding lifespan vanished =>
    if lifespan ∈ s.router.lifespans.closed then
      some (if ok && !vanished then s.setPhase b .looking else s.unlock b none)
    else none

/-! ## The system -/

/-- A call under a number that no call has. -/
def start (s : Worker) (i : ℕ) (call : Call) : Option Worker :=
  if i ∈ s.calls ∨ (∃ b ∈ s.builder, b.call = i) then none else some (s.goOn i (some call))

def next (s : Worker) : Act → Option Worker
  | .register i slug tools transport =>
    match validateRegistration slug transport with
    | .error _ => some s
    | .ok (slug, transport) => s.start i (.saving slug ⟨tools, transport⟩)
  | .unregister i slug =>
    match Slug.ofString? slug with
    | none => some s
    | some slug => s.start i (.deleting slug)
  | .reload i => (s.setRouter s.router.reset).start i .reloading
  | .request i slug =>
    match Slug.ofString? slug with
    | none => some s
    | some slug => s.start i (.arrived slug)
  | .advance i ok => (s.calls.lookup i).bind (s.advance i ok)
  | .rebind i slug =>
    match s.calls.lookup i with
    | some (.rebinding rest) => s.rebind i slug rest
    | _ => none
  | .build ok => s.builder.bind (s.buildOn ok)
  | .close lifespan =>
    if lifespan ∈ s.router.lifespans.closing then
      some (s.setRouter { s.router with lifespans := s.router.lifespans.close lifespan })
    else none

/-- A worker starts over a store as it stands. -/
def system : System Worker Act where
  init s := ∃ store, s = { store := store }
  step s a s' := s.next a = some s'

/-- All calls and closes have finished. -/
def Done (s : Worker) : Prop :=
  s.calls = ∅ ∧ s.builder.isNone = true ∧ s.router.lifespans.closing = 0

instance (s : Worker) : Decidable s.Done := inferInstanceAs (Decidable (_ ∧ _ ∧ _))

end Worker

end TaiSkeleton.SubMcp
