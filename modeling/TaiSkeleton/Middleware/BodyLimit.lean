import TaiSkeleton.Lib.Numerals
import TaiSkeleton.AccessControl.Backend

/-!
# The cap on request bodies

`BodyLimitMiddleware` counts the bytes of a request's body as the app receives them, and answers 413
where they go over the cap. An app is whatever takes its next action by what its actions gave so
far; it may catch what `receive` raises.
-/

namespace TaiSkeleton.BodyLimit

open Lib
open AccessControl (strip)

/-! ## Apps -/

structure Scope where
  type : String
  headers : List (List Char × List Char)

/-- A message that `receive` gives. -/
structure Incoming where
  type : String
  body : Option (List UInt8)
  moreBody : Bool

/-- A message given to `send`. -/
structure Outgoing where
  type : String
  status : Option ℕ
  headers : List (String × String)
  body : String

/-- An exception: `_BodyTooLarge`, or one of the others. -/
inductive Raised (ε : Type) where
  | bodyTooLarge
  | other (e : ε)

inductive Action where
  | receive
  | send (message : Outgoing)

/-- An action with what it gave. -/
inductive Event (ε : Type) where
  | received (answer : Except (Raised ε) Incoming)
  | sent (message : Outgoing) (answer : Except (Raised ε) Unit)

variable {ε : Type}

def Event.action : Event ε → Action
  | received _ => .receive
  | sent message _ => .send message

/-- What an app does next. -/
inductive Next (ε : Type) where
  | takes (action : Action)
  | ends (result : Except (Raised ε) Unit)

/-- A call of an app: what it does next behind these events. -/
abbrev Run (ε : Type) := List (Event ε) → Next ε

/-- The call behind its next event. -/
def Run.after (run : Run ε) (event : Event ε) : Run ε := fun events => run (event :: events)

/-- The events are those of the actions that the call takes. -/
def Run.Takes : Run ε → List (Event ε) → Prop
  | _, [] => True
  | run, event :: events => run [] = .takes event.action ∧ (run.after event).Takes events

/-! ## `Content-Length` -/

/-- The digits of `int(text)`: underscores may stand between them, and there are at most as many as
`sys.get_int_max_str_digits` allows. -/
def naturalOf (digits : List Char) : Option ℕ :=
  let plain := digits.filter (· != '_')
  if (digits.splitOn '_').all (fun part => !part.isEmpty && part.all Char.isDigit) &&
      plain.length ≤ 4300 then
    some (numeralValue 10 plain)
  else none

/-- `int(text)`; `none` is its `ValueError`. -/
def int (text : List Char) : Option ℤ :=
  match strip text with
  | '-' :: digits => (naturalOf digits).map fun n => -(n : ℤ)
  | '+' :: digits => (naturalOf digits).map fun n => (n : ℤ)
  | digits => (naturalOf digits).map fun n => (n : ℤ)

/-- `declared_len` -/
def Scope.declaredLen (scope : Scope) : Option ℤ :=
  (scope.headers.find? fun header => header.1 == "content-length".toList).bind (int ·.2)

/-- A `Content-Length` over the cap is refused up front. -/
def Scope.refused (cap : ℕ) (scope : Scope) : Bool :=
  scope.declaredLen.any fun declaredLen : ℤ => (cap : ℤ) < declaredLen

/-! ## The middleware -/

/-- The two variables of `__call__` beside the app. -/
structure Totals where
  received : ℕ
  responseStarted : Bool

/-- `limited_receive` and `tracking_send`: the event as the app sees it. -/
def limited (cap : ℕ) (totals : Totals) : Event ε → Totals × Event ε
  | .received (.ok message) =>
    if message.type = "http.request" then
      let received := totals.received + (message.body.getD []).length
      ({ totals with received },
        .received (if cap < received then .error .bodyTooLarge else .ok message))
    else (totals, .received (.ok message))
  | .received (.error e) => (totals, .received (.error e))
  | .sent message answer =>
    ({ totals with
        responseStarted := totals.responseStarted || message.type == "http.response.start" },
      .sent message answer)

/-- The body of the 413. -/
def tooLarge (cap : ℕ) : String :=
  "\x7b\"error\":\"request body exceeds TAI_BODY_LIMIT_MAX_BODY_BYTES (" ++ toString cap ++
    " bytes)\"\x7d"

/-- The messages of the 413. -/
def reject (cap : ℕ) : List Outgoing :=
  [{ type := "http.response.start"
     status := some 413
     headers := [("cache-control", "no-store"),
      ("content-length", toString (tooLarge cap).length), ("content-type", "application/json")]
     body := "" },
   { type := "http.response.body", status := none, headers := [], body := tooLarge cap }]

/-- `JSONResponse.__call__` -/
def respond : List Outgoing → Run ε
  | [], _ => .ends (.ok ())
  | message :: _, [] => .takes (.send message)
  | _ :: _, .sent _ (.error e) :: _ => .ends (.error e)
  | _ :: messages, _ :: events => respond messages events

/-- The app under the `try`. -/
def capped (cap : ℕ) : Totals → Run ε → Run ε
  | totals, app, events =>
    match app [] with
    | .ends (.error .bodyTooLarge) =>
      if totals.responseStarted then .ends (.error .bodyTooLarge)
      else respond (reject cap) events
    | next =>
      match events with
      | [] => next
      | event :: events =>
        capped cap (limited cap totals event).1 (app.after (limited cap totals event).2) events

/-- `BodyLimitMiddleware.__call__` -/
def call (cap : ℕ) (app : Scope → Run ε) (scope : Scope) : Run ε :=
  if scope.type ≠ "http" then app scope
  else if scope.refused cap then respond (reject cap)
  else capped cap ⟨0, false⟩ (app scope)

/-! ## What the app is handed -/

/-- The body of a request message. -/
def Event.body : Event ε → Option (List UInt8)
  | .received (.ok message) =>
    if message.type = "http.request" then some (message.body.getD []) else none
  | _ => none

/-- The bodies of the request messages, in order. -/
def bodies (events : List (Event ε)) : List (List UInt8) := events.filterMap Event.body

/-- The bytes of a request body. -/
def bytes (events : List (Event ε)) : ℕ := (bodies events).flatten.length

/-- The start of a response. -/
def Action.isStart : Action → Bool
  | send message => message.type == "http.response.start"
  | receive => false

def Event.isStart (event : Event ε) : Bool := event.action.isStart

/-- The action raised the escape `_BodyTooLarge`. -/
def Event.IsTooLarge : Event ε → Prop
  | .received (.error .bodyTooLarge) | .sent _ (.error .bodyTooLarge) => True
  | _ => False

/-- The events as the app sees them. -/
def limit (cap : ℕ) : Totals → List (Event ε) → List (Event ε)
  | _, [] => []
  | totals, event :: events =>
    (limited cap totals event).2 :: limit cap (limited cap totals event).1 events

variable {cap : ℕ} {totals : Totals} {app : Run ε} {event : Event ε} {events : List (Event ε)}

/-- Only a request message is counted, and it is handed over where its body fits. -/
theorem limited_cases (cap : ℕ) (totals : Totals) (event : Event ε) :
    (event.body = none ∧ (limited cap totals event).1.received = totals.received ∧
      (limited cap totals event).2 = event) ∨
    ∃ body, event.body = some body ∧
      (limited cap totals event).1.received = totals.received + body.length ∧
      ((totals.received + body.length ≤ cap ∧ (limited cap totals event).2 = event) ∨
        cap < totals.received + body.length ∧
          (limited cap totals event).2 = .received (.error .bodyTooLarge)) := by
  match event with
  | .sent message answer => exact .inl ⟨rfl, rfl, rfl⟩
  | .received (.error e) => exact .inl ⟨rfl, rfl, rfl⟩
  | .received (.ok message) =>
    by_cases htype : message.type = "http.request"
    · refine .inr ⟨message.body.getD [], if_pos htype, ?_⟩
      simp only [limited, if_pos htype, true_and]
      rcases Nat.lt_or_ge cap (totals.received + (message.body.getD []).length) with hover | hfits
      · exact .inr ⟨hover, by rw [if_pos hover]⟩
      · exact .inl ⟨hfits, by rw [if_neg (Nat.not_lt.mpr hfits)]⟩
    · have hlimited : limited cap totals (.received (.ok message) : Event ε) =
          (totals, .received (.ok message)) := if_neg htype
      rw [hlimited]
      exact .inl ⟨if_neg htype, rfl, rfl⟩

theorem limited_keeps (cap : ℕ) (totals : Totals) (event : Event ε) :
    (limited cap totals event).2.action = event.action ∧
      (limited cap totals event).1.responseStarted = (totals.responseStarted || event.isStart) := by
  match event with
  | .sent message answer => exact ⟨rfl, rfl⟩
  | .received (.error e) => exact ⟨rfl, (Bool.or_false _).symm⟩
  | .received (.ok message) =>
    rw [limited]
    split <;> exact ⟨rfl, (Bool.or_false _).symm⟩

theorem countP_limit :
    (limit cap totals events).countP Event.isStart = events.countP Event.isStart := by
  induction events generalizing totals with
  | nil => rfl
  | cons event events ih =>
    have hsame : (limited cap totals event).2.isStart = event.isStart :=
      congrArg Action.isStart (limited_keeps cap totals event).1
    rw [limit, List.countP_cons, List.countP_cons, ih, hsame]

theorem bodies_cons_of_none (h : event.body = none) : bodies (event :: events) = bodies events :=
  List.filterMap_cons_none h

theorem bodies_cons_of_some {body : List UInt8} (h : event.body = some body) :
    bodies (event :: events) = body :: bodies events := List.filterMap_cons_some h

theorem bodies_limit_of_lt (h : cap < totals.received) : bodies (limit cap totals events) = [] := by
  induction events generalizing totals with
  | nil => rfl
  | cons event events ih =>
    unfold limit
    rcases limited_cases cap totals event with
      ⟨hbody, hreceived, hsame⟩ | ⟨body, hbody, hreceived, hcase⟩
    · rw [hsame, bodies_cons_of_none hbody]
      exact ih (by omega)
    · rcases hcase with ⟨hle, -⟩ | ⟨-, hraised⟩
      · omega
      · rw [hraised, bodies_cons_of_none rfl]
        exact ih (by omega)

/-- The app is handed the bodies of the server, in order and unaltered, as far as they fit. -/
theorem bodies_limit (h : totals.received ≤ cap) (events : List (Event ε)) :
    bodies (limit cap totals events) <+: bodies events ∧
      totals.received + bytes (limit cap totals events) ≤ cap := by
  induction events generalizing totals with
  | nil => exact ⟨List.prefix_refl _, h⟩
  | cons event events ih =>
    unfold bytes limit
    rcases limited_cases cap totals event with
      ⟨hbody, hreceived, hsame⟩ | ⟨body, hbody, hreceived, hcase⟩
    · rw [hsame, bodies_cons_of_none hbody, bodies_cons_of_none hbody, ← hreceived]
      exact ih (by omega)
    · rcases hcase with ⟨hfits, hsame⟩ | ⟨hover, hraised⟩
      · have hnext : (limited cap totals event).1.received ≤ cap := by omega
        obtain ⟨hinitial, hle⟩ := ih hnext
        rw [hsame, bodies_cons_of_some hbody, bodies_cons_of_some hbody, List.flatten_cons,
          List.length_append]
        unfold bytes at hle
        exact ⟨(List.prefix_cons_inj body).mpr hinitial, by omega⟩
      · rw [hraised, bodies_cons_of_none rfl, bodies_limit_of_lt (by omega)]
        exact ⟨List.nil_prefix, h⟩

/-- A body that fits passes unaltered. -/
theorem limited_of_fits (h : totals.received + bytes (event :: events) ≤ cap) :
    (limited cap totals event).2 = event ∧
      (limited cap totals event).1.received + bytes events =
        totals.received + bytes (event :: events) := by
  unfold bytes at *
  rcases limited_cases cap totals event with
    ⟨hbody, hreceived, hsame⟩ | ⟨body, hbody, hreceived, hcase⟩
  · rw [bodies_cons_of_none hbody] at h ⊢
    exact ⟨hsame, by omega⟩
  · rw [bodies_cons_of_some hbody, List.flatten_cons, List.length_append] at h ⊢
    rcases hcase with ⟨-, hsame⟩ | ⟨hover, -⟩
    · exact ⟨hsame, by omega⟩
    · omega

/-! ## Runs -/

/-- A response sends its messages, in order. -/
theorem sent_of_takes_respond {messages : List Outgoing} (h : (respond messages).Takes events) :
    events.map Event.action <+: messages.map .send := by
  induction events generalizing messages with
  | nil => exact List.nil_prefix
  | cons event events ih =>
    obtain ⟨hfirst, hrest⟩ := h
    cases messages with
    | nil => cases hfirst
    | cons message messages =>
      cases event with
      | received answer => cases hfirst
      | sent message' answer =>
        cases hfirst
        refine (List.prefix_cons_inj _).mpr ?_
        cases answer with
        | ok _ => exact ih hrest
        | error e =>
          cases events with
          | nil => exact List.nil_prefix
          | cons event events => cases hrest.1

theorem capped_escaped (h : app [] = .ends (.error .bodyTooLarge)) :
    capped cap totals app = fun events =>
      if totals.responseStarted then .ends (.error .bodyTooLarge)
      else respond (reject cap) events := by
  funext events
  unfold capped
  rw [h]

theorem capped_nil (h : app [] ≠ .ends (.error .bodyTooLarge)) :
    capped cap totals app [] = app [] := by
  rw [capped]
  split
  · next heq => exact absurd heq h
  · rfl

theorem capped_after (h : app [] ≠ .ends (.error .bodyTooLarge)) (event : Event ε) :
    (capped cap totals app).after event =
      capped cap (limited cap totals event).1 (app.after (limited cap totals event).2) := by
  funext events
  show capped cap totals app (event :: events) = _
  rw [capped]
  split
  · next heq => exact absurd heq h
  · rfl

/-- A run of the middleware is one of the app behind the limit, and maybe the 413 behind it. -/
theorem of_takes_capped (h : (capped cap totals app).Takes events) :
    ∃ before after, events = before ++ after ∧ app.Takes (limit cap totals before) ∧
      (after = [] ∨ (totals.responseStarted || before.any Event.isStart) = false ∧
        (respond (reject cap) : Run ε).Takes after) := by
  induction events generalizing totals app with
  | nil => exact ⟨[], [], rfl, trivial, .inl rfl⟩
  | cons event events ih =>
    by_cases hescape : app [] = .ends (.error .bodyTooLarge)
    · rw [capped_escaped hescape] at h
      cases hstarted : totals.responseStarted with
      | true =>
        simp only [hstarted, if_true] at h
        cases h.1
      | false =>
        simp only [hstarted, Bool.false_eq_true, if_false] at h
        exact ⟨[], event :: events, rfl, trivial, .inr ⟨rfl, h⟩⟩
    · obtain ⟨hfirst, hrest⟩ := h
      rw [capped_nil hescape] at hfirst
      rw [capped_after hescape] at hrest
      obtain ⟨before, after, rfl, htakes, hafter⟩ := ih hrest
      obtain ⟨haction, hstarted⟩ := limited_keeps cap totals event
      refine ⟨event :: before, after, rfl, ⟨hfirst.trans (by rw [haction]), htakes⟩, ?_⟩
      rwa [List.any_cons, ← Bool.or_assoc, ← hstarted]

/-- Behind an app that does not escape on a body that fits, the middleware is the app. -/
theorem capped_of_fits (hfits : totals.received + bytes events ≤ cap)
    (hnot : ∀ before after, events = before ++ after → app.Takes before →
      app before ≠ .ends (.error .bodyTooLarge)) :
    ((capped cap totals app).Takes events ↔ app.Takes events) ∧
      (app.Takes events → capped cap totals app events = app events) := by
  induction events generalizing totals app with
  | nil =>
    have hescape := hnot [] [] rfl trivial
    exact ⟨Iff.rfl, fun _ => capped_nil hescape⟩
  | cons event events ih =>
    have hescape := hnot [] _ rfl trivial
    obtain ⟨hsame, hbytes⟩ := limited_of_fits hfits
    show (_ = _ ∧ _ ↔ app [] = .takes event.action ∧ _) ∧ (app [] = .takes event.action ∧ _ → _)
    rw [capped_nil hescape, capped_after hescape, hsame]
    by_cases hfirst : app [] = .takes event.action
    · have hnot' : ∀ before after, events = before ++ after → (app.after event).Takes before →
          app.after event before ≠ .ends (.error .bodyTooLarge) := fun before after hsplit hbefore =>
        hnot (event :: before) after (congrArg _ hsplit) ⟨hfirst, hbefore⟩
      obtain ⟨htakes, heq⟩ := ih (hbytes ▸ hfits) hnot'
      refine ⟨and_congr_right fun _ => htakes, fun h => ?_⟩
      show (capped cap totals app).after event events = _
      rw [capped_after hescape, hsame]
      exact heq h.2
    · exact ⟨⟨fun h => absurd h.1 hfirst, fun h => absurd h.1 hfirst⟩,
        fun h => absurd h.1 hfirst⟩

/-- The call lets what `receive` raises pass where the body is too large. -/
def LetsEscape (run : Run ε) : Prop :=
  ∀ events, run.Takes (events ++ [.received (.error .bodyTooLarge)]) →
    run (events ++ [.received (.error .bodyTooLarge)]) = .ends (.error .bodyTooLarge)

/-- The 413 receives nothing. -/
theorem not_escape_of_takes {answer : Except (Raised ε) Incoming}
    (h : (capped cap totals app).Takes (events ++ [.received answer])) :
    app [] ≠ .ends (.error .bodyTooLarge) := by
  intro hescape
  rw [capped_escaped hescape] at h
  cases hstarted : totals.responseStarted with
  | true =>
    simp only [hstarted, if_true] at h
    cases events <;> cases h.1
  | false =>
    simp only [hstarted, Bool.false_eq_true, if_false] at h
    have hmem := (sent_of_takes_respond h).subset
      (List.mem_map_of_mem (List.mem_append_right _ List.mem_cons_self))
    obtain ⟨_, -, haction⟩ := List.mem_map.mp hmem
    cases haction

theorem capped_over (hescapes : LetsEscape app) {body : List UInt8} (hbody : event.body = some body)
    (hfits : totals.received + bytes events ≤ cap)
    (hover : cap < totals.received + bytes events + body.length)
    (h : (capped cap totals app).Takes (events ++ [event])) (more : List (Event ε)) :
    capped cap totals app (events ++ event :: more) =
      if totals.responseStarted || events.any Event.isStart then .ends (.error .bodyTooLarge)
      else respond (reject cap) more := by
  obtain ⟨message, rfl⟩ : ∃ message, event = .received (.ok message) := by
    match event, hbody with
    | .received (.ok message), _ => exact ⟨message, rfl⟩
  have hescape := not_escape_of_takes h
  induction events generalizing totals app with
  | nil =>
    show (capped cap totals app).after _ more = _
    rcases limited_cases cap totals (.received (.ok message)) with ⟨hnone, -, -⟩ |
      ⟨body', hbody', -, ⟨hle, -⟩ | ⟨-, hraised⟩⟩
    · rw [hnone] at hbody
      cases hbody
    · rw [hbody] at hbody'
      cases hbody'
      exact absurd hover (Nat.not_lt.mpr hle)
    · have hfirst := (capped_nil hescape).symm.trans h.1
      rw [capped_after hescape, hraised, capped_escaped (hescapes [] ⟨hfirst, trivial⟩),
        (limited_keeps cap totals _).2]
      rfl
  | cons first events ih =>
    obtain ⟨hsame, hbytes⟩ := limited_of_fits hfits
    obtain ⟨hfirst, hrest⟩ := h
    rw [capped_nil hescape] at hfirst
    rw [capped_after hescape, hsame] at hrest
    show (capped cap totals app).after first (events ++ _ :: more) = _
    rw [capped_after hescape, hsame, List.any_cons, ← Bool.or_assoc,
      ← (limited_keeps cap totals first).2]
    rw [← hbytes] at hfits hover
    exact ih (fun events htakes => hescapes (first :: events) ⟨hfirst, htakes⟩) hfits hover hrest
      (not_escape_of_takes hrest)

theorem call_of_http {app : Scope → Run ε} {scope : Scope} (hhttp : scope.type = "http")
    (hrefused : scope.refused cap = false) :
    call cap app scope = capped cap ⟨0, false⟩ (app scope) := by
  unfold call
  rw [if_neg (not_not_intro hhttp), hrefused]
  rfl

/-- A run of the middleware: a run of the app behind the limit, and maybe the 413 behind it. -/
theorem of_takes_call {app : Scope → Run ε} {scope : Scope} (hhttp : scope.type = "http")
    (h : (call cap app scope).Takes events) : ∃ before after, events = before ++ after ∧
      (app scope).Takes (limit cap ⟨0, false⟩ before) ∧
      (after = [] ∨ before.any Event.isStart = false ∧
        (respond (reject cap) : Run ε).Takes after) := by
  cases hrefused : scope.refused cap with
  | true =>
    unfold call at h
    rw [if_neg (not_not_intro hhttp), if_pos hrefused] at h
    exact ⟨[], events, rfl, trivial, .inr ⟨rfl, h⟩⟩
  | false =>
    rw [call_of_http hhttp hrefused] at h
    exact of_takes_capped h

/-! ## A route that reads its body -/

/-- A route that receives its body at once, and lets what `receive` raises pass. -/
def readBody : Run String
  | [] => .takes .receive
  | .received (.error e) :: _ => .ends (.error e)
  | _ => .ends (.ok ())

/-- A POST whose length is declared, or not. -/
def post (declared : Option String) : Scope where
  type := "http"
  headers := (declared.map fun text => ("content-length".toList, text.toList)).toList

/-- A part of a body. -/
def part (body : List UInt8) (moreBody : Bool) : Event String :=
  .received (.ok { type := "http.request", body := some body, moreBody })

/-! ## What holds of every request -/

/-- The app is handed at most `cap` bytes, the first of the body; beside the app, the middleware
only sends the messages of the 413 in their order, and none once a response has started. -/
theorem handed_within_cap (app : Scope → Run ε) (scope : Scope) (hhttp : scope.type = "http")
    (h : (call cap app scope).Takes events) : ∃ before after, events = before ++ after ∧
      (app scope).Takes (limit cap ⟨0, false⟩ before) ∧
      bytes (limit cap ⟨0, false⟩ before) ≤ cap ∧
      bodies (limit cap ⟨0, false⟩ before) <+: bodies before ∧
      (after = [] ∨ before.any Event.isStart = false ∧
        after.map Event.action <+: (reject cap).map .send) := by
  obtain ⟨before, after, rfl, htakes, hafter⟩ := of_takes_call hhttp h
  have hzero : (⟨0, false⟩ : Totals).received ≤ cap := Nat.zero_le cap
  obtain ⟨hinitial, hle⟩ := bodies_limit hzero before
  exact ⟨before, after, rfl, htakes, (Nat.zero_add _).symm.trans_le hle, hinitial,
    hafter.imp_right (And.imp_right sent_of_takes_respond)⟩

theorem handed_within_cap_of_three : ∃ before after, [part [1, 2, 3] true] = before ++ after ∧
    readBody.Takes (limit 2 ⟨0, false⟩ before) ∧
    bytes (limit 2 ⟨0, false⟩ before) ≤ 2 ∧
    bodies (limit 2 ⟨0, false⟩ before) <+: bodies before ∧
    (after = [] ∨ before.any Event.isStart = false ∧
      after.map Event.action <+: (reject 2).map .send) :=
  handed_within_cap (fun _ => readBody) (post none) rfl ⟨rfl, trivial⟩

/-- An app that starts one response at most starts one at most behind the middleware, the 413
included. -/
theorem one_start (app : Scope → Run ε) (scope : Scope) (hhttp : scope.type = "http")
    (happ : ∀ events, (app scope).Takes events → events.countP Event.isStart ≤ 1)
    (h : (call cap app scope).Takes events) : events.countP Event.isStart ≤ 1 := by
  obtain ⟨before, after, rfl, htakes, rfl | ⟨hnone, hrespond⟩⟩ := of_takes_call hhttp h
  · have hcount := happ _ htakes
    rwa [countP_limit, ← List.append_nil before] at hcount
  · have hzero : before.countP Event.isStart = 0 := by
      simpa [List.countP_eq_zero] using hnone
    have hafter := (sent_of_takes_respond hrespond).sublist.countP_le (p := Action.isStart)
    rw [List.countP_map] at hafter
    rw [List.countP_append, hzero, zero_add]
    exact hafter

theorem starts_readBody (events : List (Event String)) (h : readBody.Takes events) :
    events.countP Event.isStart ≤ 1 := by
  rcases events with - | ⟨event, - | ⟨event', events⟩⟩
  · exact Nat.zero_le 1
  · exact List.countP_le_length
  · rcases event with (_ | _) | _ <;> cases h.2.1

theorem one_start_of_three : [part [1, 2, 3] true, .sent ((reject 2).head (by decide))
    (.ok ())].countP Event.isStart ≤ 1 :=
  have htakes : (call 2 (fun _ => readBody) (post none)).Takes
      [part [1, 2, 3] true, .sent ((reject 2).head (by decide)) (.ok ())] := ⟨rfl, rfl, trivial⟩
  one_start (fun _ => readBody) (post none) rfl starts_readBody htakes

/-- The app ends with the escape only where an action has raised it. -/
def PassesOn (run : Run ε) : Prop :=
  ∀ events, run.Takes events → run events = .ends (.error .bodyTooLarge) →
    ∃ event ∈ events, event.IsTooLarge

/-- For a body that fits, the middleware is the app: it takes the same actions, and does the same
next behind them. -/
theorem transparent (app : Scope → Run ε) (scope : Scope) (hrefused : scope.refused cap = false)
    (hown : PassesOn (app scope)) (hclean : ∀ event ∈ events, ¬ event.IsTooLarge)
    (hfits : bytes events ≤ cap) :
    ((call cap app scope).Takes events ↔ (app scope).Takes events) ∧
      ((app scope).Takes events → call cap app scope events = app scope events) := by
  by_cases hhttp : scope.type = "http"
  · rw [call_of_http hhttp hrefused]
    refine capped_of_fits (by rwa [Nat.zero_add]) ?_
    rintro before after rfl htakes hends
    obtain ⟨event, hmem, htoo⟩ := hown before htakes hends
    exact hclean event (List.mem_append_left _ hmem) htoo
  · unfold call
    rw [if_pos hhttp]
    exact ⟨Iff.rfl, fun _ => rfl⟩

theorem passesOn_readBody : PassesOn readBody := by
  intro events _ hends
  match events, hends with
  | .received (.error .bodyTooLarge) :: _, _ => exact ⟨_, List.mem_cons_self, trivial⟩

theorem transparent_of_two :
    (call 2 (fun _ => readBody) (post (some "2"))).Takes [part [1, 2] false] :=
  (transparent (fun _ => readBody) (post (some "2")) (by decide) passesOn_readBody
    (by simp [part, Event.IsTooLarge]) (by decide)).1.mpr ⟨rfl, trivial⟩

/-- The message that goes over the cap is answered by the 413 alone, or, where the response has
started, by the escape. -/
theorem over_cap (app : Scope → Run ε) (scope : Scope) (hhttp : scope.type = "http")
    (hrefused : scope.refused cap = false) (hescapes : LetsEscape (app scope)) {body : List UInt8}
    (hbody : event.body = some body) (hfits : bytes events ≤ cap)
    (hover : cap < bytes events + body.length)
    (h : (call cap app scope).Takes (events ++ [event])) (more : List (Event ε)) :
    call cap app scope (events ++ event :: more) =
      if events.any Event.isStart then .ends (.error .bodyTooLarge)
      else respond (reject cap) more := by
  rw [call_of_http hhttp hrefused] at h ⊢
  exact capped_over hescapes hbody (by rwa [Nat.zero_add]) (by rwa [Nat.zero_add]) h more

theorem letsEscape_readBody : LetsEscape readBody := by
  intro events htakes
  match events, htakes with
  | [], _ => rfl
  | [.received (.ok _)], htakes => cases htakes.2.1
  | .received (.error _) :: events, htakes => cases events <;> cases htakes.2.1

theorem over_cap_of_three : call 2 (fun _ => readBody) (post none) [part [1, 2, 3] true] =
    .takes (.send ((reject 2).head (by decide))) :=
  have htakes : (call 2 (fun _ => readBody) (post none)).Takes ([] ++ [part [1, 2, 3] true]) :=
    ⟨rfl, trivial⟩
  over_cap (fun _ => readBody) (post none) rfl rfl letsEscape_readBody rfl (by decide) (by decide)
    htakes []

end TaiSkeleton.BodyLimit
