import TaiSkeleton.Conversations.Routes

/-!
# One route for each channel identity

The creates, deletes and imports of conversation routes run at once, and other calls may write
between the read of a call and its write. As long as no write meets a row that claims its pair and
that its call does not know, no two rows claim one pair.
-/

namespace TaiSkeleton.Conversations

open Lib

/-- An import under way: the items left and the claims; `known` is the table that it read, with the
rows it has written since. -/
structure Import where
  items : List (Option Route)
  claimed : Claimed
  known : RouteTable

/-- The three operations; the items of an import are `none` where they are no valid route. -/
inductive RouteRequest where
  | create (create : Route)
  | delete (routeName : Text)
  | restore (items : List (Option Route))

/-- Where a call stands. A create that has read the table holds its row and the rows it read. -/
inductive RouteCall where
  | asked (request : RouteRequest)
  | checked (route : Route) (seen : List Route)
  | restoring (work : Import)

structure RouteState where
  table : RouteTable
  calls : ℕ → Option RouteCall

/-- A call comes in, takes its next step, which may find that a key is usable, or fails. -/
inductive RouteAct where
  | start (i : ℕ) (request : RouteRequest)
  | take (i : ℕ) (usable : Bool)
  | fail (i : ℕ)

namespace RouteState

def setCall (s : RouteState) (i : ℕ) (call : Option RouteCall) : RouteState :=
  { s with calls := Function.update s.calls i call }

/-- A row is written and the call goes on. -/
def write (s : RouteState) (i : ℕ) (route : Route) (call : Option RouteCall) : RouteState :=
  { s with table := s.table.put route }.setCall i call

/-- The next item of an import. -/
def takeItem (s : RouteState) (i : ℕ) (usable : Bool) (work : Import) : RouteState :=
  match work.items with
  | [] => s.setCall i none
  | item :: items =>
    match work.claimed.judge usable item with
    | .skips => s.setCall i (some (.restoring { work with items := items }))
    | .raises => s.setCall i none
    | .writes route =>
      s.write i route (some (.restoring
        { items := items
          claimed := work.claimed.move route.routeName (route.channelIdentity.getD none)
          known := work.known.put route }))

/-- The first step of a call. -/
def begin (s : RouteState) (i : ℕ) : RouteRequest → RouteState
  | .create create =>
    match storedRoute s.table.rows create with
    | .error _ => s.setCall i none
    | .ok route => s.setCall i (some (.checked route s.table.rows))
  | .delete routeName => { s with table := s.table.delete routeName }.setCall i none
  | .restore items =>
    if items = [] then s.setCall i none
    else
      match Claimed.ofRows s.table.rows with
      | none => s.setCall i none
      | some claimed => s.setCall i (some (.restoring ⟨items, claimed, s.table⟩))

def resume (s : RouteState) (i : ℕ) (usable : Bool) : RouteCall → RouteState
  | .asked request => s.begin i request
  | .checked route _ => if usable then s.write i route none else s.setCall i none
  | .restoring work => s.takeItem i usable work

def next (s : RouteState) : RouteAct → Option RouteState
  | .start i request =>
    match s.calls i with
    | none => some (s.setCall i (some (.asked request)))
    | some _ => none
  | .take i usable => (s.calls i).map (s.resume i usable)
  | .fail i => some (s.setCall i none)

/-- The row that the next step of a call writes, with the rows that the call knows. -/
def writing (usable : Bool) : RouteCall → Option (Route × List Route)
  | .asked _ => none
  | .checked route seen => if usable then some (route, seen) else none
  | .restoring work =>
    match work.items with
    | [] => none
    | item :: _ =>
      match work.claimed.judge usable item with
      | .writes route => some (route, work.known.rows)
      | _ => none

theorem writing_restoring {usable : Bool} {work : Import} {route : Route} {known : List Route}
    (h : writing usable (.restoring work) = some (route, known)) :
    ∃ item items, work.items = item :: items ∧
      work.claimed.judge usable item = .writes route ∧ work.known.rows = known := by
  cases hitems : work.items with
  | nil => simp [writing, hitems] at h
  | cons item items =>
    cases hverdict : work.claimed.judge usable item with
    | skips => simp [writing, hitems, hverdict] at h
    | raises => simp [writing, hitems, hverdict] at h
    | writes route' =>
      simp only [writing, hitems, hverdict, Option.some.injEq, Prod.mk.injEq] at h
      obtain ⟨rfl, rfl⟩ := h
      exact ⟨item, items, rfl, hverdict, rfl⟩

end RouteState

/-- The runs that start without a call in flight and without conflicts. -/
def routeSystem : System RouteState RouteAct where
  init s := (∀ i, s.calls i = none) ∧ Unambiguous s.table.rows
  step s a s' := s.next a = some s'

/-- A write meets no row of another name that claims its pair, but for those that its call knows. -/
def Undisturbed (s : RouteState) : RouteAct → Prop
  | .take i usable => ∀ call, s.calls i = some call → ∀ route known,
    RouteState.writing usable call = some (route, known) →
      ∀ pair, route.Claims pair → ∀ row ∈ s.table.rows, row.routeName ≠ route.routeName →
        row.Claims pair → row ∈ known
  | _ => True

/-! ## The invariant -/

/-- What a call has found out. -/
def RouteCall.Sound : RouteCall → Prop
  | .asked _ => True
  | .checked route seen => ∀ pair, route.Claims pair →
    ∀ row ∈ seen, row.routeName ≠ route.routeName → ¬row.Claims pair
  | .restoring work => work.claimed.Covers work.known.rows

structure RouteState.Sound (s : RouteState) : Prop where
  unambiguous : Unambiguous s.table.rows
  calls : ∀ i call, s.calls i = some call → call.Sound

theorem Unambiguous.delete {table : RouteTable} (h : Unambiguous table.rows) (routeName : Text) :
    Unambiguous (table.delete routeName).rows := by
  intro row hrow row' hrow'
  exact h row (RouteTable.mem_others.mp hrow).1 row' (RouteTable.mem_others.mp hrow').1

/-- A row is written whose pair no row of another name claims. -/
theorem Unambiguous.put {table : RouteTable} {route : Route} (h : Unambiguous table.rows)
    (hfree : ∀ pair, route.Claims pair →
      ∀ row ∈ table.rows, row.routeName ≠ route.routeName → ¬row.Claims pair) :
    Unambiguous (table.put route).rows := by
  intro row hrow row' hrow' pair hclaims hclaims'
  obtain rfl | ⟨hold, hother⟩ := RouteTable.mem_put.mp hrow
  · obtain rfl | ⟨hold', hother'⟩ := RouteTable.mem_put.mp hrow'
    · rfl
    · exact absurd hclaims' (hfree pair hclaims row' hold' hother')
  · obtain rfl | ⟨hold', -⟩ := RouteTable.mem_put.mp hrow'
    · exact absurd hclaims (hfree pair hclaims' row hold hother)
    · exact h row hold row' hold' pair hclaims hclaims'

/-- A call that knows a row that claims the pair of its write does not write it. -/
theorem RouteCall.Sound.not_claims {call : RouteCall} (h : call.Sound) {usable : Bool}
    {route row : Route} {known : List Route} {pair : Pair}
    (hwriting : RouteState.writing usable call = some (route, known)) (hclaims : route.Claims pair)
    (hrow : row ∈ known) (hother : row.routeName ≠ route.routeName) : ¬row.Claims pair := by
  cases call with
  | asked request => cases hwriting
  | checked route' seen =>
    simp only [RouteState.writing, Option.ite_none_right_eq_some, Option.some.injEq,
      Prod.mk.injEq] at hwriting
    obtain ⟨-, rfl, rfl⟩ := hwriting
    exact h pair hclaims row hrow hother
  | restoring work =>
    obtain ⟨item, items, -, hwrites, rfl⟩ := RouteState.writing_restoring hwriting
    intro hrowclaims
    have hholder := h row hrow pair hrowclaims
    exact hother (Claimed.holder_of_writes hwrites hclaims hholder)

namespace RouteState.Sound

variable {s s' : RouteState} {i : ℕ} {usable : Bool}

theorem setCall (h : Sound s) {call : Option RouteCall} (hcall : ∀ c ∈ call, c.Sound) :
    Sound (s.setCall i call) where
  unambiguous := h.unambiguous
  calls j c hc := by
    by_cases hj : j = i
    · subst hj
      simp only [RouteState.setCall, Function.update_self] at hc
      exact hcall c hc
    · simp only [RouteState.setCall, Function.update_of_ne hj] at hc
      exact h.calls j c hc

theorem clear (h : Sound s) : Sound (s.setCall i none) := h.setCall nofun

theorem write (h : Sound s) {route : Route} {call : Option RouteCall}
    (hput : Unambiguous (s.table.put route).rows) (hcall : ∀ c ∈ call, c.Sound) :
    Sound (s.write i route call) :=
  setCall (s := { s with table := s.table.put route }) ⟨hput, h.calls⟩ hcall

theorem begin (h : Sound s) (request : RouteRequest) : Sound (s.begin i request) := by
  cases request with
  | create create =>
    cases hstored : storedRoute s.table.rows create with
    | error refusal =>
      simp only [RouteState.begin, hstored]
      exact h.clear
    | ok route =>
      simp only [RouteState.begin, hstored]
      refine h.setCall fun call hcall => ?_
      obtain rfl := Option.some.inj hcall
      exact storedRoute_spec hstored
  | delete routeName =>
    have hdeleted : Sound { s with table := s.table.delete routeName } :=
      ⟨h.unambiguous.delete routeName, h.calls⟩
    exact hdeleted.clear
  | restore items =>
    unfold RouteState.begin
    dsimp only
    split_ifs
    · exact h.clear
    · cases hclaimed : Claimed.ofRows s.table.rows with
      | none => exact h.clear
      | some claimed =>
        refine h.setCall fun call hcall => ?_
        obtain rfl := Option.some.inj hcall
        exact Claimed.covers_ofRows h.unambiguous hclaimed

/-- A write that is undisturbed leaves the table without conflicts. -/
theorem put (h : Sound s) (hsafe : Undisturbed s (.take i usable)) {call : RouteCall}
    (hcall : s.calls i = some call) {route : Route} {known : List Route}
    (hwriting : RouteState.writing usable call = some (route, known)) :
    Unambiguous (s.table.put route).rows := by
  refine h.unambiguous.put fun pair hclaims row hrow hother hrowclaims => ?_
  have hknown := hsafe call hcall route known hwriting pair hclaims row hrow hother hrowclaims
  exact (h.calls i call hcall).not_claims hwriting hclaims hknown hother hrowclaims

theorem takeItem (h : Sound s) (hsafe : Undisturbed s (.take i usable)) {work : Import}
    (hcall : s.calls i = some (.restoring work)) : Sound (s.takeItem i usable work) := by
  have hcovers : work.claimed.Covers work.known.rows := h.calls i _ hcall
  cases hitems : work.items with
  | nil =>
    simp only [RouteState.takeItem, hitems]
    exact h.clear
  | cons item items =>
    cases hverdict : work.claimed.judge usable item with
    | skips =>
      simp only [RouteState.takeItem, hitems, hverdict]
      refine h.setCall fun call hmem => ?_
      obtain rfl := Option.some.inj hmem
      exact hcovers
    | raises =>
      simp only [RouteState.takeItem, hitems, hverdict]
      exact h.clear
    | writes route =>
      simp only [RouteState.takeItem, hitems, hverdict]
      have hwriting : RouteState.writing usable (.restoring work) =
          some (route, work.known.rows) := by
        simp only [RouteState.writing, hitems, hverdict]
      refine h.write (h.put hsafe hcall hwriting) fun call hmem => ?_
      obtain rfl := Option.some.inj hmem
      exact hcovers.move hverdict

theorem resume (h : Sound s) (hsafe : Undisturbed s (.take i usable)) {call : RouteCall}
    (hcall : s.calls i = some call) : Sound (s.resume i usable call) := by
  cases call with
  | asked request => exact h.begin request
  | checked route seen =>
    unfold RouteState.resume
    dsimp only
    split_ifs with husable
    · have hwriting : RouteState.writing usable (.checked route seen) = some (route, seen) := by
        simp only [RouteState.writing, husable, if_true]
      exact h.write (h.put hsafe hcall hwriting) nofun
    · exact h.clear
  | restoring work => exact h.takeItem hsafe hcall

theorem step (h : Sound s) {a : RouteAct} (hsafe : Undisturbed s a) (hstep : s.next a = some s') :
    Sound s' := by
  cases a with
  | start i request =>
    unfold RouteState.next at hstep
    cases hcall : s.calls i with
    | none =>
      simp only [hcall, Option.some.injEq] at hstep
      subst hstep
      refine h.setCall fun call hmem => ?_
      obtain rfl := Option.some.inj hmem
      exact trivial
    | some call => simp [hcall] at hstep
  | take i usable =>
    obtain ⟨call, hcall, rfl⟩ := Option.map_eq_some_iff.mp hstep
    exact h.resume hsafe hcall
  | fail i =>
    obtain rfl := Option.some.inj hstep
    exact h.clear

end RouteState.Sound

/-- In the runs whose writes are undisturbed no two rows ever claim one pair, and no message is
ambiguous. -/
theorem unambiguous_of_undisturbed {s : RouteState}
    (h : (routeSystem.when Undisturbed).Reachable s) :
    Unambiguous s.table.rows ∧ ∀ channel identity,
      resolveChannelRoute s.table.rows channel identity ≠ .error .inconsistent := by
  have hsound : s.Sound := by
    refine h.invariant (p := RouteState.Sound) ?_ ?_
    · rintro s ⟨hidle, hrows⟩
      refine ⟨hrows, fun i call hcall => ?_⟩
      rw [hidle i] at hcall
      cases hcall
    · rintro s a s' hs ⟨hsafe, hstep⟩
      exact hs.step hsafe hstep
  exact ⟨hsound.unambiguous, resolveChannelRoute_ne_inconsistent s.table hsound.unambiguous⟩

/-- A step that writes a row puts it in the table. -/
theorem RouteState.table_of_writing {s : RouteState} {i : ℕ} {usable : Bool} {call : RouteCall}
    {route : Route} {known : List Route} (h : writing usable call = some (route, known)) :
    (s.resume i usable call).table = s.table.put route := by
  cases call with
  | asked request => cases h
  | checked route' seen =>
    simp only [writing, Option.ite_none_right_eq_some, Option.some.injEq, Prod.mk.injEq] at h
    obtain ⟨rfl, rfl, -⟩ := h
    rfl
  | restoring work =>
    obtain ⟨item, items, hitems, hwrites, -⟩ := writing_restoring h
    simp only [resume, takeItem, hitems, hwrites]
    rfl

/-- A create for the identity `x`, with white space before it. -/
def claimant (routeName : Text) : Route := ⟨routeName, .channel, some ['c'], some [' ', 'x']⟩

/-- No rows, and no call in flight. -/
def emptyRoutes : RouteState := ⟨⟨[], List.nodup_nil⟩, fun _ => none⟩

/-- A step of a call that knows every row of the table, or writes none. -/
theorem undisturbed_of_known {s : RouteState} {i : ℕ} {usable : Bool} {call : RouteCall}
    (hcall : s.calls i = some call)
    (hknown : ∀ route known, RouteState.writing usable call = some (route, known) →
      s.table.rows = known) : Undisturbed s (.take i usable) := by
  intro call' hcall' route known hwriting pair hclaims row hrow hother hrowclaims
  obtain rfl := Option.some.inj (hcall.symm.trans hcall')
  rwa [← hknown route known hwriting]

/-- Two creates come in for one identity, and the second reads what the first has written. -/
theorem unambiguous_of_refused :
    Unambiguous [{ claimant ['a'] with ourIdentity := some ['x'] }] ∧ ∀ channel identity,
      resolveChannelRoute [{ claimant ['a'] with ourIdentity := some ['x'] }] channel identity ≠
        .error .inconsistent := by
  have hempty : (routeSystem.when Undisturbed).Reachable emptyRoutes :=
    .of_init ⟨fun _ => rfl, nofun⟩
  have hcalled := (hempty.take (.start 0 (.create (claimant ['a']))) ⟨trivial, rfl⟩).take
    (.start 1 (.create (claimant ['b']))) ⟨trivial, rfl⟩
  have hread := hcalled.take (.take 0 true) ⟨undisturbed_of_known rfl nofun, rfl⟩
  have hwritten := hread.take (.take 0 true) ⟨undisturbed_of_known rfl fun route known h =>
    congrArg Prod.snd (Option.some.inj h), rfl⟩
  exact unambiguous_of_undisturbed
    (hwritten.take (.take 1 true) ⟨undisturbed_of_known rfl nofun, rfl⟩)

/-- A write that is disturbed leaves a conflict behind. -/
theorem ambiguous_of_disturbed {s s' : RouteState} {a : RouteAct} (h : ¬Undisturbed s a)
    (hstep : s.next a = some s') : ¬Unambiguous s'.table.rows := by
  cases a with
  | start i request => exact absurd trivial h
  | fail i => exact absurd trivial h
  | take i usable =>
    unfold Undisturbed at h
    push Not at h
    obtain ⟨call, hcall, route, known, hwriting, pair, hclaims, row, hrow, hother, hrowclaims, -⟩ :=
      h
    obtain ⟨call', hcall', rfl⟩ := Option.map_eq_some_iff.mp hstep
    obtain rfl := Option.some.inj (hcall.symm.trans hcall')
    rw [RouteState.table_of_writing hwriting]
    intro hunambiguous
    have hput : route ∈ (s.table.put route).rows := RouteTable.mem_put.mpr (.inl rfl)
    have hkept : row ∈ (s.table.put route).rows := RouteTable.mem_put.mpr (.inr ⟨hrow, hother⟩)
    exact hother (hunambiguous row hkept route hput pair hrowclaims hclaims)

namespace RouteState

variable {s : RouteState} {i j : ℕ}

theorem setCall_calls (hj : j ≠ i) {call : Option RouteCall} :
    (s.setCall i call).calls j = s.calls j := Function.update_of_ne hj _ _

/-- A call leaves the other calls where they are. -/
theorem resume_calls (hj : j ≠ i) {usable : Bool} {call : RouteCall} :
    (s.resume i usable call).calls j = s.calls j := by
  cases call with
  | asked request =>
    cases request with
    | create create =>
      simp only [resume, begin]
      split
      · exact setCall_calls hj
      · exact setCall_calls hj
    | delete routeName => exact setCall_calls hj
    | restore items =>
      simp only [resume, begin]
      split_ifs
      · exact setCall_calls hj
      · split
        · exact setCall_calls hj
        · exact setCall_calls hj
  | checked route seen =>
    simp only [resume]
    split_ifs
    · exact setCall_calls hj
    · exact setCall_calls hj
  | restoring work =>
    simp only [resume, takeItem]
    split
    · exact setCall_calls hj
    · split
      · exact setCall_calls hj
      · exact setCall_calls hj
      · exact setCall_calls hj

end RouteState

/-- Two creates for one identity both read the table before either writes. -/
theorem ambiguous_of_two_creates : ∃ s, routeSystem.Reachable s ∧ (∀ i, s.calls i = none) ∧
    ¬Unambiguous s.table.rows ∧
    resolveChannelRoute s.table.rows ['c'] ['x'] = .error .inconsistent := by
  have hempty : routeSystem.Reachable emptyRoutes := .of_init ⟨fun _ => rfl, nofun⟩
  have hcalled := (hempty.take (.start 0 (.create (claimant ['a']))) rfl).take
    (.start 1 (.create (claimant ['b']))) rfl
  have hread := (hcalled.take (.take 0 true) rfl).take (.take 1 true) rfl
  have hwritten := (hread.take (.take 0 true) rfl).take (.take 1 true) rfl
  refine ⟨_, hwritten, fun i => ?_, ?_, rfl⟩
  · by_cases hi : i = 0
    · subst hi
      rfl
    · by_cases hi' : i = 1
      · subst hi'
        rfl
      · rw [RouteState.resume_calls hi', RouteState.resume_calls hi, RouteState.resume_calls hi',
          RouteState.resume_calls hi, RouteState.setCall_calls hi', RouteState.setCall_calls hi]
        rfl
  · exact fun h => resolveChannelRoute_ne_inconsistent _ h ['c'] ['x'] rfl

end TaiSkeleton.Conversations
