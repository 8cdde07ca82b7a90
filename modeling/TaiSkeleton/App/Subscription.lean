import Mathlib.Data.List.Infix
import TaiSkeleton.Lib.Run

/-!
# The subscription of a worker

`subscribe` takes one await after another: it connects, subscribes, resyncs, registers its presence
and then polls for messages, while the heartbeat refreshes the presence in a task of its own. An
error takes the subscription down, and it reconnects only from a transport error.
-/

namespace TaiSkeleton.Subscription

open Lib

/-- A string of Python, by its code points. -/
abbrev Text := List ℕ

/-! ## Errors and values -/

/-- What is raised: an error of `_TRANSPORT_ERRORS`, a cancellation, another `Exception`, which may
have no text, or what is no `Exception`. -/
inductive Raised where
  | transport
  | cancelled
  | other (prints : Bool)
  | exit
deriving DecidableEq

/-- A JSON value; of a float it matters only whether it is zero. -/
inductive Value where
  | null
  | bool (b : Bool)
  | int (n : ℤ)
  | float (zero : Bool)
  | str (text : Text)
  | list (items : List Value)
  | dict (fields : List (Text × Value))

namespace Value

def truthy : Value → Bool
  | null => false
  | bool b => b
  | int n => n != 0
  | float zero => !zero
  | str text => !text.isEmpty
  | list items => !items.isEmpty
  | dict fields => !fields.isEmpty

def isText (text : Text) : Value → Bool
  | str s => s == text
  | _ => false

/-- `text in value`: a part of a string, an item of a list or a key of an object. -/
def holds (text : Text) : Value → Except Raised Bool
  | str s => .ok (s.tails.any text.isPrefixOf)
  | list items => .ok (items.any (isText text))
  | dict fields => .ok (fields.any fun field => field.1 == text)
  | _ => .error (.other true)

/-- What the Redis client encodes as the name of a channel: a number, or a string without lone
surrogates. -/
def encodes : Value → Bool
  | int _ | float _ => true
  | str text => text.all fun c => !(decide (0xd800 ≤ c) && decide (c ≤ 0xdfff))
  | _ => false

end Value

/-- The fields of a frame that `_handle_op` reads; one that is missing is null. -/
structure Frame where
  origin : Value := .null
  targets : Value := .null
  replyTo : Value := .null

/-- Whether the worker is one of the targets of a frame. -/
def Frame.isTarget (origin : Text) (frame : Frame) : Except Raised Bool :=
  match frame.targets with
  | .null => .ok true
  | targets => targets.holds origin

/-- What `_decode` makes of the data of a message: it discards it, it meets too deep a nesting, or
it has a frame. -/
inductive Data where
  | discarded
  | tooDeep
  | frame (frame : Frame)

/-! ## States -/

/-- The await that the subscription is in, with the error that takes it down, or the reply channel
of the op that it handles. -/
inductive Point where
  | entering
  | subscribing
  | readying
  | registering
  | checking
  | polling
  | acking (replyTo : Value)
  | calling (replyTo : Value)
  | answering
  | stopping (e : Raised)
  | deleting (e : Raised)
  | unsubscribing (e : Raised)
  | closing (e : Raised)
  | leaving (e : Raised)
  | sleeping
  | ended (e : Raised)

inductive Heartbeat where
  | off
  | running
  | died (e : Raised)
deriving DecidableEq

structure State where
  origin : Text
  point : Point := .entering
  heartbeat : Heartbeat := .off

/-- What an await comes to: for a poll it may be a message, and for the callback a result, which
`json.dumps` may not take. -/
inductive Outcome where
  | done
  | raises (e : Raised)
  | message (data : Data)
  | returned (dumps : Bool)

/-- The subscription goes on, or a refresh of the heartbeat raises. -/
inductive Event where
  | main (outcome : Outcome)
  | beat (e : Raised)

namespace State

def goTo (s : State) (point : Point) : State := { s with point := point }

/-- The `except` clauses of `subscribe`. -/
def caught (s : State) (e : Raised) : State :=
  match e with
  | .transport => s.goTo .sleeping
  | e => s.goTo (.ended e)

/-- The terminal reply of `_handle_op`, which `json.dumps` may not take. -/
def terminal (s : State) (replyTo : Value) (dumps : Bool) : State :=
  if replyTo.truthy then
    if dumps && replyTo.encodes then s.goTo .answering else s.goTo (.stopping (.other true))
  else s.goTo .checking

/-- The first reply of `_handle_op`, or its callback where there is nobody to reply to. -/
def receive (s : State) (replyTo : Value) : State :=
  if replyTo.truthy then
    if replyTo.encodes then s.goTo (.acking replyTo) else s.goTo (.stopping (.other true))
  else s.goTo (.calling replyTo)

/-- `_handle_op`, up to its first await. -/
def handleOp (s : State) (frame : Frame) : State :=
  if frame.origin.isText s.origin then s.goTo .checking
  else
    match frame.isTarget s.origin with
    | .error e => s.goTo (.stopping e)
    | .ok false => s.goTo .checking
    | .ok true => s.receive frame.replyTo

/-- The callback of `_handle_op` comes back. -/
def calledBack (s : State) (replyTo : Value) : Outcome → State
  | .raises .cancelled => s.goTo (.stopping .cancelled)
  | .raises .exit => s.goTo (.stopping .exit)
  | .raises (.other false) => s.goTo (.stopping (.other true))
  | .raises _ => s.terminal replyTo true
  | .returned dumps => s.terminal replyTo dumps
  | _ => s.terminal replyTo true

/-- A step of the teardown, which swallows what is an `Exception`. -/
def tornDown (s : State) (next : Point) : Outcome → State
  | .raises .cancelled => s.goTo (.leaving .cancelled)
  | .raises .exit => s.goTo (.leaving .exit)
  | _ => s.goTo next

/-- An await of the subscription comes to its outcome. -/
def resume (s : State) (outcome : Outcome) : State :=
  match s.point with
  | .entering =>
    match outcome with
    | .raises e => s.caught e
    | _ => s.goTo .subscribing
  | .subscribing =>
    match outcome with
    | .raises e => s.goTo (.leaving e)
    | _ => s.goTo .readying
  | .readying =>
    match outcome with
    | .raises e => s.goTo (.stopping e)
    | _ => s.goTo .registering
  | .registering =>
    match outcome with
    | .raises e => s.goTo (.stopping e)
    | _ => { s with point := .checking, heartbeat := .running }
  | .checking =>
    match s.heartbeat with
    | .died .cancelled => s.goTo (.stopping .cancelled)
    | .died e => { s with point := .stopping e, heartbeat := .off }
    | _ => s.goTo .polling
  | .polling =>
    match outcome with
    | .raises e => s.goTo (.stopping e)
    | .message .tooDeep => s.goTo (.stopping (.other true))
    | .message (.frame frame) => s.handleOp frame
    | _ => s.goTo .checking
  | .acking replyTo =>
    match outcome with
    | .raises e => s.goTo (.stopping e)
    | _ => s.goTo (.calling replyTo)
  | .calling replyTo => s.calledBack replyTo outcome
  | .answering =>
    match outcome with
    | .raises e => s.goTo (.stopping e)
    | _ => s.goTo .checking
  | .stopping e =>
    match s.heartbeat, outcome with
    | .off, _ => s.goTo (.deleting e)
    | _, .raises .exit => { s with point := .leaving .exit, heartbeat := .off }
    -- a cancellation of the subscription itself is taken for the heartbeat's
    | _, _ => { s with point := .deleting e, heartbeat := .off }
  | .deleting e => s.tornDown (.unsubscribing e) outcome
  | .unsubscribing e =>
    match outcome with
    | .raises .transport | .raises (.other _) => s.goTo (.leaving e)
    | outcome => s.tornDown (.closing e) outcome
  | .closing e => s.tornDown (.leaving e) outcome
  | .leaving e =>
    match outcome with
    | .raises e' => s.caught e'
    | _ => s.caught e
  | .sleeping =>
    match outcome with
    | .raises e => s.goTo (.ended e)
    | _ => s.goTo .entering
  | .ended _ => s

def step (s : State) : Event → State
  | .main outcome => s.resume outcome
  | .beat e =>
    match s.heartbeat with
    | .running => { s with heartbeat := .died e }
    | _ => s

end State

/-- The subscription of a worker, from its first await on. -/
def system (origin : Text) : System State Event where
  init s := s = { origin }
  step s event s' := s' = s.step event

/-! ## Recovery -/

/-- What the subscription reconnects from or is to end with. -/
def Raised.Recovers (e : Raised) : Prop := e = .transport ∨ e = .cancelled

instance (e : Raised) : Decidable e.Recovers := inferInstanceAs (Decidable (_ ∨ _))

/-- What an await may raise: the callback any `Exception` with a text, the teardown any
`Exception`, and the others a transport error or a cancellation. -/
def Point.Tolerates : Point → Raised → Prop
  | .calling _, e => e ≠ .exit ∧ e ≠ .other false
  | .stopping _, e | .deleting _, e | .unsubscribing _, e | .closing _, e => e ≠ .exit
  | .sleeping, e => e = .cancelled
  | .checking, _ | .ended _, _ => True
  | _, e => e.Recovers

/-- The channel of a reply is none, or one that the Redis client encodes. -/
def Value.IsChannel (replyTo : Value) : Prop := replyTo.truthy = true → replyTo.encodes = true

/-- A frame is an echo, or its targets are null, a string, a list or an object, and if the worker is
one of them there is a channel to reply on, or none is asked for. -/
def Frame.Readable (origin : Text) (frame : Frame) : Prop :=
  frame.origin.isText origin = true ∨
    ∃ isTarget, frame.isTarget origin = .ok isTarget ∧
      (isTarget = true → frame.replyTo.IsChannel)

/-- A step whose error, if it raises one, is not an error that the subscription ends with. -/
def Safe (s : State) : Event → Prop
  | .beat e => s.heartbeat = .running → e.Recovers
  | .main outcome =>
    match outcome with
    | .done => True
    | .raises e => s.point.Tolerates e
    | .message .discarded => True
    | .message .tooDeep => s.point ≠ .polling
    | .message (.frame frame) => s.point = .polling → frame.Readable s.origin
    | .returned dumps =>
      ∀ replyTo, s.point = .calling replyTo → replyTo.truthy = true → dumps = true

/-- The subscription has not ended, unless it was cancelled. -/
def State.Alive (s : State) : Prop := ∀ e, s.point = .ended e → e = .cancelled

/-- The error in flight is one that the subscription recovers from, and the reply channel of the op
in work can be published on. -/
def Point.Sound : Point → Prop
  | .stopping e | .deleting e | .unsubscribing e | .closing e | .leaving e => e.Recovers
  | .ended e => e = .cancelled
  | .acking replyTo | .calling replyTo => replyTo.IsChannel
  | _ => True

structure Sound (s : State) : Prop where
  point : s.point.Sound
  heartbeat : ∀ e, s.heartbeat = .died e → e.Recovers

namespace Sound

variable {s : State} {event : Event} {outcome : Outcome}

theorem goTo (h : Sound s) {p : Point} (hpoint : p.Sound) : Sound (s.goTo p) :=
  ⟨hpoint, h.heartbeat⟩

theorem caught (h : Sound s) {e : Raised} (he : e.Recovers) : Sound (s.caught e) := by
  obtain rfl | rfl := he
  · exact h.goTo trivial
  · exact h.goTo (p := .ended .cancelled) rfl

theorem terminal (h : Sound s) {replyTo : Value} {dumps : Bool} (hchannel : replyTo.IsChannel)
    (hdumps : replyTo.truthy = true → dumps = true) : Sound (s.terminal replyTo dumps) := by
  unfold State.terminal
  split_ifs with htruthy hreply
  · exact h.goTo trivial
  · exact absurd (by simp [hdumps htruthy, hchannel htruthy]) hreply
  · exact h.goTo trivial

theorem receive (h : Sound s) {replyTo : Value} (hchannel : replyTo.IsChannel) :
    Sound (s.receive replyTo) := by
  unfold State.receive
  split_ifs with htruthy hencodes
  · exact h.goTo hchannel
  · exact absurd (hchannel htruthy) hencodes
  · exact h.goTo hchannel

theorem handleOp (h : Sound s) {frame : Frame} (hframe : frame.Readable s.origin) :
    Sound (s.handleOp frame) := by
  unfold State.handleOp
  split_ifs with hecho
  · exact h.goTo trivial
  · obtain hframe | ⟨isTarget, htarget, hchannel⟩ := hframe
    · exact absurd hframe hecho
    · rw [htarget]
      cases isTarget with
      | false => exact h.goTo trivial
      | true => exact h.receive (hchannel rfl)

theorem calledBack (h : Sound s) {replyTo : Value} (hchannel : replyTo.IsChannel)
    (hraises : ∀ e, outcome = .raises e → e ≠ .exit ∧ e ≠ .other false)
    (hdumps : ∀ dumps, outcome = .returned dumps → replyTo.truthy = true → dumps = true) :
    Sound (s.calledBack replyTo outcome) := by
  have hdone : Sound (s.terminal replyTo true) := h.terminal hchannel fun _ => rfl
  cases outcome with
  | done => exact hdone
  | message data => exact hdone
  | returned dumps => exact h.terminal hchannel (hdumps dumps rfl)
  | raises e =>
    obtain ⟨hexit, hprints⟩ := hraises e rfl
    cases e with
    | transport => exact hdone
    | cancelled => exact h.goTo (.inr rfl)
    | exit => exact absurd rfl hexit
    | other prints =>
      cases prints with
      | true => exact hdone
      | false => exact absurd rfl hprints

theorem tornDown (h : Sound s) {n : Point} (hnext : n.Sound)
    (hraises : ∀ e, outcome = .raises e → e ≠ .exit) : Sound (s.tornDown n outcome) := by
  cases outcome with
  | done => exact h.goTo hnext
  | message data => exact h.goTo hnext
  | returned dumps => exact h.goTo hnext
  | raises e =>
    cases e with
    | transport => exact h.goTo hnext
    | cancelled => exact h.goTo (.inr rfl)
    | other prints => exact h.goTo hnext
    | exit => exact absurd rfl (hraises .exit rfl)

theorem resume (h : Sound s) (hsafe : Safe s (.main outcome)) : Sound (s.resume outcome) := by
  have hpoint := h.point
  have hraises : ∀ e, outcome = .raises e → s.point.Tolerates e := by
    rintro e rfl
    exact hsafe
  have hdumps : ∀ dumps, outcome = .returned dumps → ∀ replyTo, s.point = .calling replyTo →
      replyTo.truthy = true → dumps = true := by
    rintro dumps rfl
    exact hsafe
  unfold State.resume
  cases heq : s.point with
  | entering =>
    rw [heq] at hraises
    cases outcome with
    | raises e => exact h.caught (hraises e rfl)
    | _ => exact h.goTo trivial
  | subscribing =>
    rw [heq] at hraises
    cases outcome with
    | raises e => exact h.goTo (p := .leaving e) (hraises e rfl)
    | _ => exact h.goTo trivial
  | readying =>
    rw [heq] at hraises
    cases outcome with
    | raises e => exact h.goTo (p := .stopping e) (hraises e rfl)
    | _ => exact h.goTo trivial
  | registering =>
    rw [heq] at hraises
    cases outcome with
    | raises e => exact h.goTo (p := .stopping e) (hraises e rfl)
    | _ => exact ⟨trivial, fun e hdied => nomatch hdied⟩
  | checking =>
    cases hbeat : s.heartbeat with
    | off => exact h.goTo trivial
    | running => exact h.goTo trivial
    | died e =>
      have he := h.heartbeat e hbeat
      obtain rfl | rfl := he
      · exact ⟨.inl rfl, fun e hdied => nomatch hdied⟩
      · exact h.goTo (.inr rfl)
  | polling =>
    rw [heq] at hraises
    cases outcome with
    | raises e => exact h.goTo (p := .stopping e) (hraises e rfl)
    | done => exact h.goTo trivial
    | returned dumps => exact h.goTo trivial
    | message data =>
      cases data with
      | discarded => exact h.goTo trivial
      | tooDeep => exact absurd heq hsafe
      | frame frame => exact h.handleOp (hsafe heq)
  | acking replyTo =>
    rw [heq] at hraises hpoint
    cases outcome with
    | raises e => exact h.goTo (p := .stopping e) (hraises e rfl)
    | _ => exact h.goTo (p := .calling replyTo) hpoint
  | calling replyTo =>
    rw [heq] at hraises hpoint
    exact h.calledBack hpoint hraises fun dumps hreturned => hdumps dumps hreturned replyTo heq
  | answering =>
    rw [heq] at hraises
    cases outcome with
    | raises e => exact h.goTo (p := .stopping e) (hraises e rfl)
    | _ => exact h.goTo trivial
  | stopping e =>
    rw [heq] at hraises hpoint
    have hoff : Sound { s with point := .deleting e, heartbeat := .off } :=
      ⟨hpoint, fun e hdied => nomatch hdied⟩
    cases hbeat : s.heartbeat with
    | off => exact h.goTo (p := .deleting e) hpoint
    | running =>
      cases outcome with
      | raises e' =>
        cases e' with
        | exit => exact absurd rfl (hraises .exit rfl)
        | _ => exact hoff
      | _ => exact hoff
    | died e' =>
      cases outcome with
      | raises e' =>
        cases e' with
        | exit => exact absurd rfl (hraises .exit rfl)
        | _ => exact hoff
      | _ => exact hoff
  | deleting e =>
    rw [heq] at hraises hpoint
    exact h.tornDown hpoint hraises
  | unsubscribing e =>
    rw [heq] at hraises hpoint
    cases outcome with
    | raises e' =>
      cases e' with
      | transport => exact h.goTo (p := .leaving e) hpoint
      | other prints => exact h.goTo (p := .leaving e) hpoint
      | cancelled => exact h.tornDown (n := .closing e) hpoint hraises
      | exit => exact absurd rfl (hraises .exit rfl)
    | _ => exact h.goTo (p := .closing e) hpoint
  | closing e =>
    rw [heq] at hraises hpoint
    exact h.tornDown hpoint hraises
  | leaving e =>
    rw [heq] at hraises hpoint
    cases outcome with
    | raises e' => exact h.caught (hraises e' rfl)
    | _ => exact h.caught hpoint
  | sleeping =>
    rw [heq] at hraises
    cases outcome with
    | raises e => exact h.goTo (p := .ended e) (hraises e rfl)
    | _ => exact h.goTo trivial
  | ended e => exact h

theorem step (h : Sound s) (hsafe : Safe s event) : Sound (s.step event) := by
  cases event with
  | main outcome => exact h.resume hsafe
  | beat e =>
    cases hbeat : s.heartbeat with
    | running =>
      have hdied : s.step (.beat e) = { s with heartbeat := .died e } := by
        simp only [State.step, hbeat]
      rw [hdied]
      refine ⟨h.point, fun e' heq => ?_⟩
      cases heq
      exact hsafe hbeat
    | off => simpa only [State.step, hbeat] using h
    | died e' => simpa only [State.step, hbeat] using h

theorem alive (h : Sound s) : s.Alive := by
  intro e hended
  have hpoint := h.point
  rw [hended] at hpoint
  exact hpoint

theorem of_reachable {origin : Text} (h : ((system origin).when Safe).Reachable s) : Sound s := by
  refine h.invariant (fun s hinit => ?_) fun s event s' hs hstep => ?_
  · rw [hinit]
    exact ⟨trivial, fun e hdied => nomatch hdied⟩
  · obtain ⟨hsafe, rfl⟩ := hstep
    exact hs.step hsafe

end Sound

/-- Where no step raises an error that the subscription ends with, it ends only when it is
cancelled. -/
theorem alive_of_safe {origin : Text} {s : State}
    (h : ((system origin).when Safe).Reachable s) : s.Alive :=
  (Sound.of_reachable h).alive

section

variable {origin : Text} {s : State}

theorem reachable_start (origin : Text) : (system origin).Reachable { origin } := .of_init rfl

theorem reachable_step (h : (system origin).Reachable s) (event : Event) :
    (system origin).Reachable (s.step event) := h.take event rfl

theorem safe_start (origin : Text) : ((system origin).when Safe).Reachable { origin } :=
  .of_init rfl

theorem safe_step (h : ((system origin).when Safe).Reachable s) (event : Event)
    (hsafe : Safe s event) : ((system origin).when Safe).Reachable (s.step event) :=
  h.take event ⟨hsafe, rfl⟩

end

/-- A subscription that loses its connection while it waits for a message. -/
theorem alive_of_lost_connection : State.Alive { origin := [119], point := .sleeping } := by
  have hready := safe_step (safe_step (safe_step (safe_start [119]) (.main .done) trivial)
    (.main .done) trivial) (.main .done) trivial
  have hpolling := safe_step (safe_step hready (.main .done) trivial) (.main .done) trivial
  have hstopping := safe_step hpolling (.main (.raises .transport)) (.inl rfl)
  have hdeleting := safe_step hstopping (.main (.raises .cancelled)) nofun
  have hclosing := safe_step (safe_step hdeleting (.main (.raises .transport)) nofun)
    (.main (.raises .transport)) nofun
  exact alive_of_safe (safe_step hclosing (.main .done) trivial)

/-- A frame whose targets are a number. -/
def numberedFrame : Frame := { targets := .int 5 }

theorem ended_by_frame : ∃ s, (system [119]).Reachable s ∧ ¬s.Alive := by
  have hready := reachable_step (reachable_step (reachable_step (reachable_start [119])
    (.main .done)) (.main .done)) (.main .done)
  have hpolling := reachable_step (reachable_step hready (.main .done)) (.main .done)
  have hstopping := reachable_step hpolling (.main (.message (.frame numberedFrame)))
  have hdeleting := reachable_step hstopping (.main (.raises .cancelled))
  have hclosing := reachable_step (reachable_step hdeleting (.main .done)) (.main .done)
  have hleft := reachable_step (reachable_step hclosing (.main .done)) (.main .done)
  exact ⟨_, hleft, fun halive => nomatch halive (.other true) rfl⟩

end TaiSkeleton.Subscription
