import TaiSkeleton.Interactions.InboxConverges

/-!
# The runs of the inbox

Every step of the store and of the connection keeps what the client holds in line with what is
ahead of the cursor. Once the tail is drained nothing is ahead, and the client holds the pending
questions; but an overdue one whose group a purge has dropped from the index was never shown.
-/

namespace TaiSkeleton.Interactions

open Lib Keys

variable {idleTtl : Time} {υ : Type} [DecidableEq υ] {audience : InteractionRequest → Option υ}
  {caller : Option υ} {w w' : World} {events : List Event} {a : Label}

/-! ## The store -/

/-- What holds of the store and its events. -/
structure StoreInv (idleTtl : Time) (w : World) (events : List Event) : Prop where
  count : CountInv idleTtl w
  list : ListInv idleTtl w
  event : EventInv w events
  stream : StreamInv w
  live : w.live = true

/-- While no key runs out, `backlog` finds no stream gone. -/
theorem StreamInv.dropsDead (h : StreamInv w) (a : Label) : DropsDead w a := by
  cases a with
  | step n now =>
    intro group hunlists
    have hok := h.tasks n
    cases htask : w.tasks n with
    | backlog now groups found stage =>
      rw [htask] at hok hunlists
      cases groups with
      | nil => cases hunlists
      | cons first rest =>
        cases stage with
        | unlisting => exact absurd rfl hok.2.1
        | undating => exact absurd rfl hok.2.2
        | _ => cases hunlists
    | _ =>
      rw [htask] at hunlists
      cases hunlists
  | _ => trivial

namespace StoreInv

theorem start : StoreInv idleTtl .start [] := ⟨.start, .start, .start, .start, rfl⟩

theorem step (h : StoreInv idleTtl w events) (hstep : w.next idleTtl a = some w')
    (hlive : w'.live = true) : StoreInv idleTtl w' (events ++ w.events a) where
  count := h.count.step hstep
  list := h.list.step h.count (h.stream.dropsDead a) hstep
  event := h.event.follow (.step h.count hstep)
  stream := h.stream.step h.count h.list h.live hstep
  live := hlive

end StoreInv

/-- A task goes on by steps of its own. -/
theorem World.tasks_of_next {n : ℕ} {now : Time} {groups : List GroupId}
    {found : List InteractionRequest} {stage : BacklogStage} (hstep : w.next idleTtl a = some w')
    (htask : w'.tasks n = .backlog now groups found stage) :
    w.tasks n = .backlog now groups found stage ∨ ∃ t, a = .step n t := by
  have hother : ∀ {m : ℕ} {task : Task}, (∀ now groups found stage,
      task ≠ .backlog now groups found stage) →
        Function.update w.tasks m task n = .backlog now groups found stage →
          w.tasks n = .backlog now groups found stage := by
    intro m task hne hupdate
    by_cases hn : n = m
    · subst hn
      rw [Function.update_self] at hupdate
      exact absurd hupdate (hne _ _ _ _)
    · rwa [Function.update_of_ne hn] at hupdate
  cases a with
  | reserveOpenSlot now limit request =>
    simp only [World.next, Option.ite_none_left_eq_some, Option.some.injEq] at hstep
    obtain ⟨-, rfl⟩ := hstep
    exact .inl htask
  | crash m =>
    obtain rfl := Option.some.inj hstep
    exact .inl (hother (fun _ _ _ _ heq => by cases heq) htask)
  | tick clock =>
    simp only [World.next, Option.ite_none_right_eq_some, Option.some.injEq] at hstep
    obtain ⟨-, rfl⟩ := hstep
    exact .inl htask
  | step m t =>
    by_cases hn : n = m
    · exact .inr ⟨t, hn ▸ rfl⟩
    · left
      simp only [World.next, Option.ite_none_left_eq_some] at hstep
      obtain ⟨-, hstep⟩ := hstep
      have hsame : ∀ (s : World) (task : Task), s.tasks = w.tasks →
          (s.goOn m task).tasks n = w.tasks n := by
        intro s task htasks
        show Function.update s.tasks m task n = _
        rw [Function.update_of_ne hn, htasks]
      rw [← htask]
      symm
      split at hstep
      · cases hstep
      · cases hstep
      · next request reserved stage _ =>
        obtain rfl := Option.some.inj hstep
        cases stage <;> exact hsame w _ rfl
      · obtain rfl := Option.some.inj hstep
        exact hsame _ _ (World.resolve_tasks _ _ _ _)
      · obtain rfl := Option.some.inj hstep
        exact hsame w _ rfl
      · next now' groups found stage _ =>
        obtain rfl := Option.some.inj hstep
        cases groups with
        | nil => cases stage <;> exact hsame w _ rfl
        | cons group rest =>
          cases stage with
          | pruning overdue stage =>
            cases overdue with
            | nil => exact hsame w _ rfl
            | cons request overdue => exact hsame _ _ (World.resolve_tasks _ _ _ _)
          | _ => exact hsame w _ rfl
  | _ =>
    simp only [World.next, Option.ite_none_right_eq_some, Option.some.injEq] at hstep
    obtain ⟨-, rfl⟩ := hstep
    exact .inl (hother (fun _ _ _ _ heq => by cases heq) htask)

/-! ## The notes of the connection -/

section Note

variable {c : Connection}

theorem note_frame (w : World) (a : Label) : (c.note w a).cursor = c.cursor ∧
    (c.note w a).frames = c.frames ∧ (c.note w a).visible = c.visible ∧
    (c.note w a).stage = c.stage := by
  unfold Connection.note
  split
  · split
    · split_ifs <;> exact ⟨rfl, rfl, rfl, rfl⟩
    · exact ⟨rfl, rfl, rfl, rfl⟩
  · exact ⟨rfl, rfl, rfl, rfl⟩

/-- Only the listing of the connection's own backlog is noted. -/
theorem note_eq (h : ∀ n t now, c.stage = .reading n → w.tasks n = .listing now → a ≠ .step n t) :
    c.note w a = c := by
  unfold Connection.note
  split
  · next m t =>
    split
    · next n now hstage htask =>
      by_cases hn : m = n
      · subst hn
        exact absurd rfl (h m t now hstage htask)
      · rw [if_neg hn]
    · rfl
  · rfl

theorem note_listing {n : ℕ} {t now : Time} (hstage : c.stage = .reading n)
    (htask : w.tasks n = .listing now) :
    (c.note w (.step n t)).openedAt = w.clock ∧
      (c.note w (.step n t)).listed = w.keys.pending.range (· ≤ ·) := by
  unfold Connection.note
  simp only [hstage, htask, if_pos, and_self]

end Note

namespace Inbox

variable {s : Inbox}

/-! ## The steps -/

/-- A step of the store. -/
theorem Converging.store (h : s.Converging audience caller)
    (hinv : StoreInv idleTtl s.world s.events) (hstep : s.world.next idleTtl a = some w')
    (hlive : w'.live = true) :
    Converging ⟨w', s.events ++ s.world.events a, s.connection.note s.world a⟩ audience
      caller := by
  have hinv' := hinv.step hstep hlive
  have hfollows : Follows s.world w' (s.world.events a) := .step hinv.count hstep
  obtain ⟨hcursor, hframes, hvisible, hstage⟩ := note_frame (c := s.connection) s.world a
  refine ⟨?_, h.shows.follow hfollows h.cursor hcursor hframes hvisible, fun hearly => ?_,
    fun n hreading now groups found stage htask => ?_, fun htailing request hasked hmine
      hpending => ?_⟩
  · rw [hcursor, List.length_append]
    exact h.cursor.trans (Nat.le_add_right _ _)
  · rw [hframes]
    exact h.early (hstage ▸ hearly)
  · have hown : s.connection.stage = .reading n := hstage ▸ hreading
    have hfollow : ∀ {now groups found stage},
        s.world.tasks n = .backlog now groups found stage →
          Reads ⟨w', s.events ++ s.world.events a, s.connection⟩ groups found stage :=
      fun htask => (h.reading n hown _ _ _ _ htask).follow hinv.count hinv'.count hfollows
        h.cursor
    have hnote : ∀ {now groups found stage}, s.world.tasks n = .backlog now groups found stage →
        s.connection.note s.world a = s.connection := by
      intro now groups found stage htask
      refine note_eq fun n' t now' hstage' htask' _ => ?_
      obtain rfl := StreamStage.reading.inj (hown.symm.trans hstage')
      rw [htask] at htask'
      cases htask'
    obtain hsame | ⟨t, rfl⟩ := World.tasks_of_next hstep htask
    · rw [hnote hsame]
      exact hfollow hsame
    · have hnext := hstep
      simp only [World.next, Option.ite_none_left_eq_some] at hnext
      obtain ⟨-, hnext⟩ := hnext
      split at hnext
      · cases hnext
      · cases hnext
      · next request reserved stage _ =>
        obtain rfl := Option.some.inj hnext
        cases stage <;>
          simp only [World.stepAdd, World.goOn, Function.update_self] at htask <;> cases htask
      · obtain rfl := Option.some.inj hnext
        simp only [World.goOn, Function.update_self] at htask
        split at htask <;> cases htask
      · next now' hlisting =>
        obtain rfl := Option.some.inj hnext
        obtain ⟨hopened, hlisted⟩ := note_listing (t := t) hown hlisting
        simp only [World.goOn, Function.update_self] at htask
        obtain ⟨-, rfl, rfl, rfl⟩ := Task.backlog.inj htask
        exact .list hinv.count hinv.list hinv.live rfl hopened hlisted
      · next now' groups' found' stage' hbefore =>
        obtain rfl := Option.some.inj hnext
        rw [hnote hbefore]
        exact (hfollow hbefore).stepBacklog hinv.count hinv.list hinv.stream hinv.live hbefore
          htask
  · obtain hbefore | hannounced := pending_before hfollows h.cursor hcursor hpending
    · have hasked' := asked_before hinv.count hinv'.count hfollows.asked hasked hbefore
      obtain hheld | hannounced | hmissed := h.tailing (hstage ▸ htailing) request hasked' hmine
        hbefore
      · left
        rwa [Connection.held, hframes]
      · exact .inr (.inl (hannounced.follow h.cursor hcursor))
      · rw [note_eq]
        · exact .inr (.inr hmissed)
        · intro n t now' hreading
          rw [← hstage, htailing] at hreading
          cases hreading
    · exact .inr (.inl hannounced)

/-- The cursor is read before any frame. -/
theorem Converging.openStream (h : s.Converging audience caller)
    (hstage : s.connection.stage = .connected) :
    Converging { s with connection := { s.connection with
      stage := .opened
      cursor := s.events.length } } audience caller := by
  have hframes := h.early (.inl hstage)
  have hheld : s.connection.held = [] := by rw [Connection.held, hframes, List.foldl_nil]
  refine ⟨le_rfl, ⟨fun id hid => ?_, fun _ id hid => ?_, h.shows.visible, fun frame hframe => ?_⟩,
    fun _ => hframes, fun n hreading => (by cases hreading), fun htailing => by cases htailing⟩
  · exact absurd (hheld ▸ hid) List.not_mem_nil
  · exact absurd (hheld ▸ hid) List.not_mem_nil
  · exact absurd (hframes ▸ hframe) List.not_mem_nil

/-- The backlog is called. -/
theorem Converging.readBacklog {n : ℕ} {now : Time} (h : s.Converging audience caller)
    (hinv : StoreInv idleTtl s.world s.events)
    (hstep : s.world.next idleTtl (.backlog n now) = some w') (hlive : w'.live = true) :
    Converging ⟨w', s.events, { s.connection with stage := .reading n }⟩ audience caller := by
  have hstore := h.store hinv hstep hlive
  simp only [World.events, List.append_nil, Connection.note] at hstore
  refine ⟨hstore.cursor, ⟨hstore.shows.held, hstore.shows.seen, hstore.shows.visible,
    hstore.shows.frames⟩, fun hearly => ?_, fun m hreading _ _ _ _ htask => ?_,
    fun htailing => by cases htailing⟩
  · obtain hearly | hearly := hearly <;> cases hearly
  · obtain rfl := StreamStage.reading.inj hreading
    simp only [World.next, Option.ite_none_right_eq_some, Option.some.injEq] at hstep
    obtain ⟨-, rfl⟩ := hstep
    simp only [World.goOn, Function.update_self] at htask
    cases htask

/-! ### The replay -/

section Replay

variable {c : Connection} {found : List InteractionRequest} {id : InteractionId}

theorem mem_held_replay : id ∈ (found.foldl (fun c request => c.offer audience caller request)
    c).held ↔ id ∈ c.held ∨ ∃ request ∈ found, id = request.interactionId ∧
      addressed audience caller request = true := by
  induction found generalizing c with
  | nil => simp
  | cons request found ih =>
    rw [List.foldl_cons, ih, mem_held_offer, or_assoc]
    simp

theorem mem_visible_replay : id ∈ (found.foldl (fun c request => c.offer audience caller request)
    c).visible ↔ id ∈ c.visible ∨ ∃ request ∈ found, id = request.interactionId ∧
      addressed audience caller request = true ∧ caller.isSome = true := by
  induction found generalizing c with
  | nil => simp
  | cons request found ih =>
    rw [List.foldl_cons, ih, mem_visible_offer, or_assoc]
    simp

theorem mem_frames_replay {frame : Frame} :
    frame ∈ (found.foldl (fun c request => c.offer audience caller request) c).frames ↔
      frame ∈ c.frames ∨ ∃ request ∈ found, frame = .add request ∧
        addressed audience caller request = true := by
  induction found generalizing c with
  | nil => simp
  | cons request found ih =>
    rw [List.foldl_cons, ih, mem_frames_offer, or_assoc]
    simp

variable (audience caller) in
theorem offer_frame (c : Connection) (request : InteractionRequest) :
    (c.offer audience caller request).cursor = c.cursor ∧
      (c.offer audience caller request).openedAt = c.openedAt ∧
      (c.offer audience caller request).listed = c.listed ∧
      (c.offer audience caller request).stage = c.stage := by
  unfold Connection.offer
  split_ifs <;> exact ⟨rfl, rfl, rfl, rfl⟩

variable (audience caller) in
theorem replay_frame (found : List InteractionRequest) (c : Connection) :
    (found.foldl (fun c request => c.offer audience caller request) c).cursor = c.cursor ∧
      (found.foldl (fun c request => c.offer audience caller request) c).openedAt = c.openedAt ∧
      (found.foldl (fun c request => c.offer audience caller request) c).listed = c.listed := by
  induction found generalizing c with
  | nil => exact ⟨rfl, rfl, rfl⟩
  | cons request found ih =>
    obtain ⟨hcursor, hopened, hlisted, -⟩ := offer_frame audience caller c request
    obtain ⟨ihcursor, ihopened, ihlisted⟩ := ih (c.offer audience caller request)
    exact ⟨ihcursor.trans hcursor, ihopened.trans hopened, ihlisted.trans hlisted⟩

end Replay

/-- The backlog has come to its end. -/
theorem Converging.replay {n : ℕ} {now : Time} {found : List InteractionRequest}
    (h : s.Converging audience caller) (hstage : s.connection.stage = .reading n)
    (htask : s.world.tasks n = .backlog now [] found .reading) :
    let replayed := found.foldl (fun c request => c.offer audience caller request) s.connection
    Converging { s with
      world := s.world.goOn n .ended
      connection := { replayed with
        stage := .tailing
        frames := replayed.frames ++ [.backlogDone] } } audience caller := by
  intro replayed
  have hreads := h.reading n hstage _ _ _ _ htask
  obtain ⟨hcursor, hopened, hlisted⟩ := replay_frame audience caller found s.connection
  have hdone : (Connection.held { replayed with
      stage := .tailing
      frames := replayed.frames ++ [.backlogDone] }) = replayed.held := held_append
  have hopen : ∀ {id}, s.Open id → Inbox.Open { s with
      world := s.world.goOn n .ended
      connection := { replayed with
        stage := .tailing
        frames := replayed.frames ++ [.backlogDone] } } id := by
    rintro id (hpending | ⟨event, hevent, hends⟩)
    · exact .inl hpending
    · exact .inr ⟨event, hcursor.symm ▸ hevent, hends⟩
  refine ⟨hcursor.symm ▸ h.cursor, ⟨fun id hid => ?_, fun hsome id hid => ?_, fun id hid => ?_,
    fun frame hframe id hname => ?_⟩, fun hearly => ?_, fun n hreading => (by cases hreading),
    fun _ request hasked hmine hpending => ?_⟩
  · rw [hdone] at hid
    obtain hheld | ⟨request, hrequest, rfl, hmine⟩ := mem_held_replay.mp hid
    · obtain ⟨hheld, hmine⟩ := h.shows.held id hheld
      exact ⟨hopen hheld, hmine⟩
    · obtain ⟨hasked, hrequest⟩ := hreads.sound request hrequest
      exact ⟨hopen hrequest, request, hasked, rfl, hmine⟩
  · rw [hdone] at hid
    refine mem_visible_replay.mpr ?_
    obtain hheld | ⟨request, hrequest, hid, hmine⟩ := mem_held_replay.mp hid
    · exact .inl (h.shows.seen hsome id hheld)
    · exact .inr ⟨request, hrequest, hid, hmine, hsome⟩
  · obtain hvisible | ⟨request, hrequest, rfl, hmine, -⟩ := mem_visible_replay.mp hid
    · exact h.shows.visible id hvisible
    · exact ⟨request, (hreads.sound request hrequest).1, rfl, hmine⟩
  · obtain hframe | hframe := List.mem_append.mp hframe
    · obtain hframe | ⟨request, hrequest, rfl, hmine⟩ := mem_frames_replay.mp hframe
      · exact h.shows.frames frame hframe id hname
      · exact ⟨request, (hreads.sound request hrequest).1, Option.some.inj hname, hmine⟩
    · obtain rfl := List.mem_singleton.mp hframe
      cases hname
  · obtain hearly | hearly := hearly <;> cases hearly
  · obtain hawaited | ⟨event, hevent, hadds⟩ | hmissed := hreads.awaited request hasked hpending
    · left
      rw [hdone]
      obtain hfound | htail | ⟨hhead, -⟩ := hawaited
      · exact mem_held_replay.mpr (.inr ⟨request, hfound, rfl, hmine⟩)
      · cases htail
      · cases hhead
    · exact .inr (.inl ⟨event, hcursor.symm ▸ hevent, hadds⟩)
    · exact .inr (.inr ⟨hopened.symm ▸ hmissed.1, hlisted.symm ▸ hmissed.2⟩)

/-! ### The tail -/

section Tail

variable {event : Event} {c : Connection} {id : InteractionId}

/-- The event at the cursor lies before what is ahead of the next one. -/
theorem events_of_tail (h : s.events[s.connection.cursor]? = some event) :
    s.events = s.events.take s.connection.cursor ++
        event :: s.events.drop (s.connection.cursor + 1) ∧
      s.events.drop s.connection.cursor = event :: s.events.drop (s.connection.cursor + 1) ∧
      s.connection.cursor + 1 ≤ s.events.length := by
  obtain ⟨hlt, rfl⟩ := List.getElem?_eq_some_iff.mp h
  have hdrop := List.drop_eq_getElem_cons hlt
  refine ⟨?_, hdrop, hlt⟩
  rw [← hdrop, List.take_append_drop]

theorem Open.tail (h : s.Open id) (hevent : s.events[s.connection.cursor]? = some event)
    (hnot : ¬event.Ends id) (hcursor : c.cursor = s.connection.cursor + 1) :
    Inbox.Open { s with connection := c } id := by
  obtain hpending | ⟨other, hother, hends⟩ := h
  · exact .inl hpending
  · rw [(events_of_tail hevent).2.1] at hother
    obtain rfl | hother := List.mem_cons.mp hother
    · exact absurd hends hnot
    · exact .inr ⟨other, hcursor.symm ▸ hother, hends⟩

theorem Announced.tail (h : s.Announced id) (hevent : s.events[s.connection.cursor]? = some event)
    (hcursor : c.cursor = s.connection.cursor + 1) :
    event.Adds id ∨ Inbox.Announced { s with connection := c } id := by
  obtain ⟨other, hother, hadds⟩ := h
  rw [(events_of_tail hevent).2.1] at hother
  obtain rfl | hother := List.mem_cons.mp hother
  · exact .inl hadds
  · exact .inr ⟨other, hcursor.symm ▸ hother, hadds⟩

/-- What an event of each kind does. -/
theorem receive_of_add (hadds : event.Adds id) :
    c.receive audience caller w event = match w.readState id with
      | none => c
      | some state => c.offer audience caller state.request := by
  obtain ⟨rfl, htype⟩ := hadds
  cases hread : w.readState event.interactionId <;>
    simp only [Connection.receive, htype, hread]

variable (audience caller w c) in
theorem receive_of_end (hends : event.Ends id) : ∃ frame : Frame, frame.Finishes id ∧
    c.receive audience caller w event = c.finish caller id frame := by
  obtain ⟨rfl, htype⟩ := hends
  unfold Connection.receive
  cases hevent : event.type with
  | add => exact absurd hevent htype
  | answered => exact ⟨_, ⟨rfl, fun _ => rfl⟩, rfl⟩
  | removed => exact ⟨_, ⟨rfl, fun _ => rfl⟩, rfl⟩

/-- A question whose announcement is at the cursor is pending, or an event ahead ends it. -/
theorem open_of_added {state : Expiring InteractionState}
    (hinv : StoreInv idleTtl s.world s.events)
    (hevent : s.events[s.connection.cursor]? = some event) (hadds : event.Adds id)
    (hstate : s.world.keys.states id = some state)
    (hcursor : c.cursor = s.connection.cursor + 1) :
    Inbox.Open { s with connection := c } id := by
  cases hstatus : state.value.status with
  | pending => exact .inl ⟨state, hstate, hstatus⟩
  | answered =>
    right
    have hpos := hinv.event.answered id state hstate hstatus
    obtain ⟨ending, hending, hends⟩ := (hinv.event.ended id).mp hpos
    obtain ⟨hsplit, -, -⟩ := events_of_tail hevent
    rw [hsplit] at hending
    obtain hbefore | hending := List.mem_append.mp hending
    · exact absurd hends (hinv.event.order _ _ _ id hsplit hadds ending hbefore)
    · obtain rfl | hahead := List.mem_cons.mp hending
      · exact absurd hadds.2 hends.2
      · exact ⟨ending, hcursor.symm ▸ hahead, hends⟩

/-- A question that an event has ended is not pending. -/
theorem not_pending_of_ended (hinv : StoreInv idleTtl w events) (hevent : event ∈ events)
    (hends : event.Ends id) : ¬w.Pending id := by
  rintro ⟨state, hstate, hstatus⟩
  have hpos := (hinv.event.ended id).mpr ⟨event, hevent, hends⟩
  rw [hinv.count.resolved id state hpos hstate] at hstatus
  cases hstatus

omit [DecidableEq υ] in
theorem finish_frame (caller : Option υ) (c : Connection) (id : InteractionId) (frame : Frame) :
    (c.finish caller id frame).openedAt = c.openedAt ∧
      (c.finish caller id frame).listed = c.listed ∧
      (c.finish caller id frame).stage = c.stage ∧
      (∀ shown ∈ c.visible, shown ≠ id → shown ∈ (c.finish caller id frame).visible) ∧
      (c.finish caller id frame).visible ⊆ c.visible := by
  unfold Connection.finish
  split_ifs
  · exact ⟨rfl, rfl, rfl, fun _ hmem _ => hmem, List.Subset.refl _⟩
  · refine ⟨rfl, rfl, rfl, fun shown hmem hne => ?_, List.filter_sublist.subset⟩
    exact List.mem_filter.mpr ⟨hmem, decide_eq_true hne⟩

omit [DecidableEq υ] in
/-- A frame that ends a question comes to a restricted caller that has seen the question. -/
theorem frames_finish {frame shown : Frame} (h : shown ∈ (c.finish caller id frame).frames) :
    shown ∈ c.frames ∨ (shown = frame ∧ (caller.isSome = true → id ∈ c.visible)) := by
  unfold Connection.finish at h
  split_ifs at h with hskip
  · exact .inl h
  · refine (List.mem_append.mp h).imp_right fun hmem =>
      ⟨List.mem_singleton.mp hmem, fun hsome => ?_⟩
    simpa [hsome] using hskip

end Tail

/-- The cursor moves on to a connection that has made what it should of the event. -/
theorem Converging.next {event : Event} {c : Connection} (h : s.Converging audience caller)
    (hstage : s.connection.stage = .tailing)
    (hevent : s.events[s.connection.cursor]? = some event)
    (hcursor : c.cursor = s.connection.cursor + 1) (hsame : c.stage = s.connection.stage)
    (hopened : c.openedAt = s.connection.openedAt) (hlisted : c.listed = s.connection.listed)
    (hshows : Shows { s with connection := c } audience caller)
    (hkept : ∀ id ∈ s.connection.held, s.world.Pending id → id ∈ c.held)
    (hadded : ∀ request ∈ s.world.asked, addressed audience caller request = true →
      s.world.Pending request.interactionId → event.Adds request.interactionId →
        request.interactionId ∈ c.held) :
    Converging { s with connection := c } audience caller where
  cursor := hcursor.le.trans (events_of_tail hevent).2.2
  shows := hshows
  early hearly := by
    have hstage' : c.stage = .tailing := hsame.trans hstage
    obtain hearly | hearly := hearly <;> cases hstage'.symm.trans hearly
  reading n hreading := by
    have hstage' : c.stage = .tailing := hsame.trans hstage
    cases hstage'.symm.trans hreading
  tailing _ request hasked hmine hpending := by
    obtain hheld | hannounced | hmissed := h.tailing hstage request hasked hmine hpending
    · exact .inl (hkept _ hheld hpending)
    · obtain hown | hannounced := hannounced.tail hevent hcursor
      · exact .inl (hadded request hasked hmine hpending hown)
      · exact .inr (.inl hannounced)
    · exact .inr (.inr ⟨hopened.symm ▸ hmissed.1, hlisted.symm ▸ hmissed.2⟩)

/-- The event at the cursor announces a question. -/
theorem Converging.tailAdd {event : Event} {id : InteractionId} (h : s.Converging audience caller)
    (hinv : StoreInv idleTtl s.world s.events) (hstage : s.connection.stage = .tailing)
    (hevent : s.events[s.connection.cursor]? = some event) (hadds : event.Adds id) :
    Converging { s with connection := { s.connection.receive audience caller s.world event with
      cursor := s.connection.cursor + 1 } } audience caller := by
  have hends : ∀ other, ¬event.Ends other := fun other hends => hends.2 hadds.2
  rw [receive_of_add hadds]
  cases hread : s.world.readState id with
  | none =>
    refine h.next hstage hevent rfl rfl rfl rfl ⟨fun held hheld => ?_, h.shows.seen,
      h.shows.visible, h.shows.frames⟩ (fun _ hheld _ => hheld) fun request _ _ hpending hown => ?_
    · obtain ⟨hopen, hmine⟩ := h.shows.held held hheld
      exact ⟨hopen.tail hevent (hends held) rfl, hmine⟩
    · obtain ⟨state, hstate, -⟩ := hpending
      have hfound := readState_of_live hinv.count hinv.live hstate
      rw [← hown.1, hadds.1, hread] at hfound
      cases hfound
  | some value =>
    obtain ⟨state, hstate, -, rfl⟩ := Expiring.read_eq_some.mp hread
    obtain ⟨hasked, hid⟩ := hinv.count.states _ state hstate
    obtain ⟨-, hopened, hlisted, hsame⟩ := offer_frame audience caller s.connection
      state.value.request
    have hmine : addressed audience caller state.value.request = true →
        s.world.Mine audience caller state.value.request.interactionId :=
      fun haddressed => ⟨_, hasked, rfl, haddressed⟩
    refine h.next hstage hevent rfl hsame hopened hlisted ⟨fun held hheld => ?_,
      fun hsome held hheld => ?_, fun shown hshown => ?_, fun frame hframe name hname => ?_⟩
      (fun _ hheld _ => mem_held_offer.mpr (.inl hheld))
      fun request hasked' haddressed _ hown => ?_
    · obtain hheld | ⟨rfl, haddressed⟩ := mem_held_offer.mp hheld
      · obtain ⟨hopen, hmine⟩ := h.shows.held held hheld
        exact ⟨hopen.tail hevent (hends held) rfl, hmine⟩
      · exact ⟨open_of_added hinv hevent (hid ▸ hadds) (hid ▸ hstate) rfl, hmine haddressed⟩
    · refine mem_visible_offer.mpr ?_
      obtain hheld | ⟨hheld, haddressed⟩ := mem_held_offer.mp hheld
      · exact .inl (h.shows.seen hsome held hheld)
      · exact .inr ⟨hheld, haddressed, hsome⟩
    · obtain hshown | ⟨rfl, haddressed, -⟩ := mem_visible_offer.mp hshown
      · exact h.shows.visible shown hshown
      · exact hmine haddressed
    · obtain hframe | ⟨rfl, haddressed⟩ := mem_frames_offer.mp hframe
      · exact h.shows.frames frame hframe name hname
      · obtain rfl := Option.some.inj hname
        exact hmine haddressed
    · have hsameId : state.value.request.interactionId = request.interactionId :=
        hid.trans (hadds.1.symm.trans hown.1)
      obtain rfl := hinv.count.eq_of_id hasked hasked' hsameId
      exact mem_held_offer.mpr (.inr ⟨rfl, haddressed⟩)

/-- The event at the cursor ends a question. -/
theorem Converging.tailEnd {event : Event} {id : InteractionId} (h : s.Converging audience caller)
    (hinv : StoreInv idleTtl s.world s.events) (hstage : s.connection.stage = .tailing)
    (hevent : s.events[s.connection.cursor]? = some event) (hends : event.Ends id) :
    Converging { s with connection := { s.connection.receive audience caller s.world event with
      cursor := s.connection.cursor + 1 } } audience caller := by
  obtain ⟨frame, hfinishes, hreceive⟩ := receive_of_end audience caller s.world s.connection hends
  rw [hreceive]
  obtain ⟨hopened, hlisted, hsame, hleft, hsub⟩ := finish_frame caller s.connection id frame
  have hmem : event ∈ s.events := List.mem_of_getElem? hevent
  have hheld : ∀ {other}, other ∈ (s.connection.finish caller id frame).held ↔
      other ∈ s.connection.held ∧ other ≠ id := mem_held_finish hfinishes h.shows.seen
  refine h.next hstage hevent rfl hsame hopened hlisted ⟨fun other hother => ?_,
    fun hsome other hother => ?_, fun shown hshown => h.shows.visible shown (hsub hshown),
    fun shown hshown name hname => ?_⟩ (fun other hother hpending => ?_)
    fun request _ _ _ hown => absurd hown.2 hends.2
  · obtain ⟨hother, hne⟩ := hheld.mp hother
    obtain ⟨hopen, hmine⟩ := h.shows.held other hother
    exact ⟨hopen.tail hevent (fun hown => hne (hown.1.symm.trans hends.1)) rfl, hmine⟩
  · obtain ⟨hother, hne⟩ := hheld.mp hother
    exact hleft other (h.shows.seen hsome other hother) hne
  · obtain hshown | ⟨rfl, hvisible⟩ := frames_finish hshown
    · exact h.shows.frames shown hshown name hname
    · obtain rfl := Option.some.inj (hfinishes.1.symm.trans hname)
      cases hcaller : caller with
      | some self => exact hcaller ▸ h.shows.visible id (hvisible (by rw [hcaller]; rfl))
      | none =>
        have hpos := (hinv.event.ended id).mpr ⟨event, hmem, hends⟩
        obtain ⟨request, hasked, hid⟩ := hinv.count.known id hpos
        exact ⟨request, hasked, hid, rfl⟩
  · refine hheld.mpr ⟨hother, ?_⟩
    rintro rfl
    exact not_pending_of_ended hinv hmem hends hpending

/-- The next event. -/
theorem Converging.tail {event : Event} (h : s.Converging audience caller)
    (hinv : StoreInv idleTtl s.world s.events) (hstage : s.connection.stage = .tailing)
    (hevent : s.events[s.connection.cursor]? = some event) :
    Converging { s with connection := { s.connection.receive audience caller s.world event with
      cursor := s.connection.cursor + 1 } } audience caller := by
  by_cases htype : event.type = .add
  · exact h.tailAdd hinv hstage hevent ⟨rfl, htype⟩
  · exact h.tailEnd hinv hstage hevent ⟨rfl, htype⟩

/-! ## Every run -/

/-- What every step of the store and of the connection keeps. -/
theorem Converging.step {s' : Inbox} {l : InboxLabel} (h : s.Converging audience caller)
    (hinv : StoreInv idleTtl s.world s.events)
    (hstep : s.next audience caller idleTtl l = some s') (hlive : s'.world.live = true) :
    StoreInv idleTtl s'.world s'.events ∧ s'.Converging audience caller := by
  cases l with
  | store a =>
    obtain ⟨w', hnext, rfl⟩ := Option.map_eq_some_iff.mp hstep
    exact ⟨hinv.step hnext hlive, h.store hinv hnext hlive⟩
  | openStream =>
    simp only [Inbox.next, Option.ite_none_right_eq_some, Option.some.injEq] at hstep
    obtain ⟨hstage, rfl⟩ := hstep
    exact ⟨hinv, h.openStream hstage⟩
  | readBacklog n now =>
    simp only [Inbox.next, Option.ite_none_right_eq_some] at hstep
    obtain ⟨-, hstep⟩ := hstep
    obtain ⟨w', hnext, rfl⟩ := Option.map_eq_some_iff.mp hstep
    have hstore := hinv.step hnext hlive
    simp only [World.events, List.append_nil] at hstore
    exact ⟨hstore, h.readBacklog hinv hnext hlive⟩
  | replay =>
    simp only [Inbox.next] at hstep
    split at hstep
    · next n hstage =>
      split at hstep
      · next now found htask =>
        obtain rfl := Option.some.inj hstep
        have hstore := hinv.step (a := .crash n) rfl hlive
        simp only [World.events, List.append_nil] at hstore
        exact ⟨hstore, h.replay hstage htask⟩
      · cases hstep
    · cases hstep
  | tail =>
    simp only [Inbox.next, Option.ite_none_right_eq_some] at hstep
    obtain ⟨hstage, hstep⟩ := hstep
    obtain ⟨event, hevent, rfl⟩ := Option.map_eq_some_iff.mp hstep
    exact ⟨hinv, h.tail hinv hstage hevent⟩

/-- The connection has made frames of all the events. -/
def Drained (s : Inbox) : Prop :=
  s.connection.stage = .tailing ∧ s.connection.cursor = s.events.length

/-- The steps between states in which no key has run out. -/
def nextLive (audience : InteractionRequest → Option υ) (caller : Option υ) (idleTtl : Time)
    (s : Inbox) (l : InboxLabel) : Option Inbox :=
  (s.next audience caller idleTtl l).filter fun s' => s'.world.live

theorem step_of_nextLive {s' : Inbox} {l : InboxLabel}
    (h : s.nextLive audience caller idleTtl l = some s') :
    (inboxes audience caller idleTtl).step s l s' :=
  Option.filter_eq_some_iff.mp h

/-- A question is asked by a task of the store. -/
def asks (n : ℕ) (request : InteractionRequest) (now : Time) : List InboxLabel :=
  .store (.add n request false) :: List.replicate 3 (.store (.step n now))

/-- A stream is opened between two questions, and the caller is in the audience of the first. -/
def streamOfOne : List InboxLabel :=
  .openStream :: asks 0 ⟨7, 1, 0, 100, false⟩ 0 ++ [.readBacklog 1 0] ++
    List.replicate 3 (.store (.step 1 0)) ++ [.replay] ++ asks 2 ⟨8, 2, 0, 100, false⟩ 0 ++
    [.tail, .tail]

/-- The deadline of a question passes, another group's question is asked, and a stream is opened. -/
def streamOfOverdue : List InboxLabel :=
  asks 0 ⟨7, 1, 0, 100, false⟩ 0 ++ [.store (.tick 200)] ++ asks 1 ⟨8, 2, 200, 300, false⟩ 200 ++
    [.openStream, .readBacklog 2 200] ++ List.replicate 3 (.store (.step 2 200)) ++ [.replay]

end Inbox

end TaiSkeleton.Interactions
