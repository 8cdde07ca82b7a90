import TaiSkeleton.Interactions.InboxEvents

/-!
# What a client of the inbox holds

What lies behind the cursor is in the frames, what is ahead of it will be: a question that the
client holds is pending, or an event ahead ends it; and a pending question is held, or announced
ahead, or was in no group that the backlog found, which only an overdue one is.
-/

namespace TaiSkeleton.Interactions

open Lib Keys

variable {idleTtl : Time} {υ : Type} [DecidableEq υ] {audience : InteractionRequest → Option υ}
  {caller : Option υ}

/-- An id of a question for the caller. -/
def World.Mine (w : World) (audience : InteractionRequest → Option υ) (caller : Option υ)
    (id : InteractionId) : Prop :=
  ∃ request ∈ w.asked, request.interactionId = id ∧ addressed audience caller request = true

/-- Its deadline had passed when the backlog was read, and its group was not in the index. -/
def Connection.Missed (c : Connection) (request : InteractionRequest) : Prop :=
  request.timeoutAt ≤ c.openedAt ∧ request.groupId ∉ c.listed

/-! ## The frames -/

section Frames

variable {c : Connection} {request : InteractionRequest} {id : InteractionId} {frame : Frame}

theorem held_append {frames : List Frame} {last : Frame} :
    (frames ++ [last]).foldl hold [] = hold (frames.foldl hold []) last := by
  rw [List.foldl_append]
  rfl

theorem mem_held_offer : id ∈ (c.offer audience caller request).held ↔
    id ∈ c.held ∨ (id = request.interactionId ∧ addressed audience caller request = true) := by
  unfold Connection.offer
  by_cases haddressed : addressed audience caller request = true
  · rw [if_pos haddressed, Connection.held, held_append, hold, List.mem_cons, Connection.held]
    simp [haddressed, or_comm]
  · rw [if_neg haddressed]
    simp [haddressed]

theorem mem_visible_offer : id ∈ (c.offer audience caller request).visible ↔
    id ∈ c.visible ∨ (id = request.interactionId ∧ addressed audience caller request = true ∧
      caller.isSome = true) := by
  unfold Connection.offer
  by_cases haddressed : addressed audience caller request = true
  · rw [if_pos haddressed]
    cases hsome : caller.isSome with
    | false => simp
    | true => simp [haddressed, or_comm]
  · rw [if_neg haddressed]
    simp [haddressed]

theorem mem_frames_offer : frame ∈ (c.offer audience caller request).frames ↔
    frame ∈ c.frames ∨ (frame = .add request ∧ addressed audience caller request = true) := by
  unfold Connection.offer
  by_cases haddressed : addressed audience caller request = true
  · rw [if_pos haddressed]
    simp [haddressed]
  · rw [if_neg haddressed]
    simp [haddressed]

/-- The frame names the question and ends it. -/
def Frame.Finishes (frame : Frame) (id : InteractionId) : Prop :=
  frame.names = some id ∧ ∀ held, hold held frame = held.filter (· ≠ id)

omit [DecidableEq υ] in
theorem mem_held_finish (hframe : frame.Finishes id)
    (hvisible : caller.isSome = true → ∀ held ∈ c.held, held ∈ c.visible) {other : InteractionId} :
    other ∈ (c.finish caller id frame).held ↔ other ∈ c.held ∧ other ≠ id := by
  unfold Connection.finish
  split_ifs with hskip
  · simp only [Bool.and_eq_true, Bool.not_eq_true', List.contains_eq_mem,
      decide_eq_false_iff_not] at hskip
    refine ⟨fun hmem => ⟨hmem, ?_⟩, fun h => h.1⟩
    rintro rfl
    exact hskip.2 (hvisible hskip.1 other hmem)
  · rw [Connection.held, held_append, hframe.2, List.mem_filter, decide_eq_true_eq]
    rfl

end Frames

/-! ## What is ahead of the cursor -/

namespace Inbox

variable (s : Inbox)

/-- The question is pending, or an event ahead ends it. -/
def Open (id : InteractionId) : Prop :=
  s.world.Pending id ∨ ∃ event ∈ s.events.drop s.connection.cursor, event.Ends id

/-- An event ahead announces the question. -/
def Announced (id : InteractionId) : Prop :=
  ∃ event ∈ s.events.drop s.connection.cursor, event.Adds id

/-- The backlog has the question, or will come to it. -/
def Awaited (request : InteractionRequest) (groups : List GroupId)
    (found : List InteractionRequest) (stage : BacklogStage) : Prop :=
  request ∈ found ∨ request.groupId ∈ groups.tail ∨
    (groups.head? = some request.groupId ∧ match stage with
      | .reading => True
      | .inspecting entries => request ∈ entries
      | .pruning overdue _ => request ∈ overdue
      | .unlisting | .undating => False)

/-- What the backlog has found and will find. -/
structure Reads (groups : List GroupId) (found : List InteractionRequest) (stage : BacklogStage) :
    Prop where
  sound : ∀ request ∈ found, request ∈ s.world.asked ∧ s.Open request.interactionId
  awaited : ∀ request ∈ s.world.asked, s.world.Pending request.interactionId →
    Awaited request groups found stage ∨ s.Announced request.interactionId ∨
      s.connection.Missed request

/-- What the connection has yielded. -/
structure Shows (audience : InteractionRequest → Option υ) (caller : Option υ) : Prop where
  held : ∀ id ∈ s.connection.held, s.Open id ∧ s.world.Mine audience caller id
  seen : caller.isSome = true → ∀ id ∈ s.connection.held, id ∈ s.connection.visible
  visible : ∀ id ∈ s.connection.visible, s.world.Mine audience caller id
  frames : ∀ frame ∈ s.connection.frames, ∀ id, frame.names = some id →
    s.world.Mine audience caller id

structure Converging (audience : InteractionRequest → Option υ) (caller : Option υ) : Prop where
  cursor : s.connection.cursor ≤ s.events.length
  shows : s.Shows audience caller
  early : s.connection.stage = .connected ∨ s.connection.stage = .opened →
    s.connection.frames = []
  reading : ∀ n, s.connection.stage = .reading n → ∀ now groups found stage,
    s.world.tasks n = .backlog now groups found stage → s.Reads groups found stage
  tailing : s.connection.stage = .tailing → ∀ request ∈ s.world.asked,
    addressed audience caller request = true → s.world.Pending request.interactionId →
      request.interactionId ∈ s.connection.held ∨ s.Announced request.interactionId ∨
        s.connection.Missed request

variable {s : Inbox} {w' : World} {new : List Event} {c : Connection} {id : InteractionId}

/-! ### Steps of the store -/

section Follow

variable (hfollows : Follows s.world w' new) (hcursor : s.connection.cursor ≤ s.events.length)
  (hc : c.cursor = s.connection.cursor)

include hcursor hc in
theorem mem_drop_append {event : Event} : event ∈ (s.events ++ new).drop c.cursor ↔
    event ∈ s.events.drop s.connection.cursor ∨ event ∈ new := by
  rw [hc, List.drop_append_of_le_length hcursor, List.mem_append]

include hfollows hcursor hc in
theorem Open.follow (h : s.Open id) : Inbox.Open ⟨w', s.events ++ new, c⟩ id := by
  obtain hpending | ⟨event, hevent, hends⟩ := h
  · obtain hpending' | ⟨event, hevent, hends⟩ := hfollows.lost id hpending
    · exact .inl hpending'
    · exact .inr ⟨event, (mem_drop_append hcursor hc).mpr (.inr hevent), hends⟩
  · exact .inr ⟨event, (mem_drop_append hcursor hc).mpr (.inl hevent), hends⟩

include hcursor hc in
theorem Announced.follow (h : s.Announced id) : Inbox.Announced ⟨w', s.events ++ new, c⟩ id := by
  obtain ⟨event, hevent, hadds⟩ := h
  exact ⟨event, (mem_drop_append hcursor hc).mpr (.inl hevent), hadds⟩

include hfollows hcursor hc in
theorem pending_before (h : w'.Pending id) :
    s.world.Pending id ∨ Inbox.Announced ⟨w', s.events ++ new, c⟩ id := by
  obtain hpending | ⟨event, hevent, hadds⟩ := hfollows.gained id h
  · exact .inl hpending
  · exact .inr ⟨event, (mem_drop_append hcursor hc).mpr (.inr hevent), hadds⟩

end Follow

theorem mine_mono (hasked : s.world.asked ⊆ w'.asked) (h : s.world.Mine audience caller id) :
    w'.Mine audience caller id := by
  obtain ⟨request, hmem, hid⟩ := h
  exact ⟨request, hasked hmem, hid⟩

/-- A pending question of before was asked before. -/
theorem asked_before (hinv : CountInv idleTtl s.world) (hinv' : CountInv idleTtl w')
    (hasked : s.world.asked ⊆ w'.asked) {request : InteractionRequest} (hmem : request ∈ w'.asked)
    (hpending : s.world.Pending request.interactionId) : request ∈ s.world.asked := by
  obtain ⟨state, hstate, -⟩ := hpending
  obtain ⟨hold, hid⟩ := hinv.states _ state hstate
  rwa [hinv'.eq_of_id hmem (hasked hold) hid.symm]

theorem Shows.follow (h : s.Shows audience caller) (hfollows : Follows s.world w' new)
    (hcursor : s.connection.cursor ≤ s.events.length) (hc : c.cursor = s.connection.cursor)
    (hframes : c.frames = s.connection.frames) (hvisible : c.visible = s.connection.visible) :
    Shows ⟨w', s.events ++ new, c⟩ audience caller where
  held id hid := by
    obtain ⟨hopen, hmine⟩ := h.held id (by rwa [Connection.held, hframes] at hid)
    exact ⟨hopen.follow hfollows hcursor hc, mine_mono hfollows.asked hmine⟩
  seen hsome id hid := by
    show id ∈ c.visible
    rw [hvisible]
    exact h.seen hsome id (by rwa [Connection.held, hframes] at hid)
  visible id hid := mine_mono hfollows.asked (h.visible id (hvisible ▸ hid))
  frames frame hframe id hid :=
    mine_mono hfollows.asked (h.frames frame (hframes ▸ hframe) id hid)

theorem Reads.follow {groups : List GroupId} {found : List InteractionRequest}
    {stage : BacklogStage} (h : s.Reads groups found stage) (hinv : CountInv idleTtl s.world)
    (hinv' : CountInv idleTtl w') (hfollows : Follows s.world w' new)
    (hcursor : s.connection.cursor ≤ s.events.length) :
    Reads ⟨w', s.events ++ new, s.connection⟩ groups found stage where
  sound request hrequest := by
    obtain ⟨hasked, hopen⟩ := h.sound request hrequest
    exact ⟨hfollows.asked hasked, hopen.follow hfollows hcursor rfl⟩
  awaited request hasked hpending := by
    obtain hbefore | hannounced := pending_before hfollows hcursor rfl hpending
    · have hasked' := asked_before hinv hinv' hfollows.asked hasked hbefore
      obtain hawaited | hannounced | hmissed := h.awaited request hasked' hbefore
      · exact .inl hawaited
      · exact .inr (.inl (hannounced.follow hcursor rfl))
      · exact .inr (.inr hmissed)
    · exact .inr (.inl hannounced)

/-! ### The connection's backlog -/

variable {groups : List GroupId} {found overdue : List InteractionRequest} {stage : BacklogStage}
  {request : InteractionRequest} {now : Time}

/-- What the backlog awaits it still awaits, where it loses nothing that is pending. -/
theorem Reads.goOn {groups' : List GroupId} {found' : List InteractionRequest}
    {stage' : BacklogStage} (h : s.Reads groups found stage)
    (hfound : ∀ request ∈ found', request ∈ found ∨
      (request ∈ s.world.asked ∧ s.world.Pending request.interactionId))
    (hawaited : ∀ request ∈ s.world.asked, s.world.Pending request.interactionId →
      Awaited request groups found stage → Awaited request groups' found' stage') :
    s.Reads groups' found' stage' where
  sound request hrequest := by
    obtain hold | ⟨hasked, hpending⟩ := hfound request hrequest
    · exact h.sound request hold
    · exact ⟨hasked, .inl hpending⟩
  awaited request hasked hpending :=
    (h.awaited request hasked hpending).imp_left (hawaited request hasked hpending)

/-- The backlog will come to the question's group. -/
theorem awaited_of_mem (h : request.groupId ∈ groups) :
    Awaited request groups found .reading := by
  cases groups with
  | nil => cases h
  | cons group rest =>
    obtain rfl | hrest := List.mem_cons.mp h
    · exact .inr (.inr ⟨rfl, trivial⟩)
    · exact .inr (.inl hrest)

theorem awaited_pruneNext {groups' : List GroupId} {found' : List InteractionRequest}
    {stage' : BacklogStage} {now' : Time}
    (heq : World.pruneNext now groups found overdue = .backlog now' groups' found' stage')
    (h : request ∈ found ∨ request.groupId ∈ groups.tail ∨
      (groups.head? = some request.groupId ∧ request ∈ overdue)) :
    Awaited request groups' found' stage' := by
  cases overdue with
  | nil =>
    obtain ⟨-, rfl, rfl, rfl⟩ := Task.backlog.inj heq
    obtain hfound | htail | ⟨-, hmem⟩ := h
    · exact .inl hfound
    · exact awaited_of_mem htail
    · cases hmem
  | cons first overdue =>
    obtain ⟨-, rfl, rfl, rfl⟩ := Task.backlog.inj heq
    exact h

theorem found_pruneNext {groups' : List GroupId} {found' : List InteractionRequest}
    {stage' : BacklogStage} {now' : Time}
    (heq : World.pruneNext now groups found overdue = .backlog now' groups' found' stage') :
    found' = found := by
  cases overdue <;> exact (Task.backlog.inj heq).2.2.1.symm

/-- A call that has returned leaves its question resolved. -/
theorem not_pending_of_returned {w : World} {resolution : Resolution} {group : GroupId}
    {stage : Stage} {claimed : Bool} (hinv : CountInv idleTtl w) (hlive : w.live = true)
    (h : (w.resolve resolution id group stage).2 = .returned claimed) :
    ¬(w.resolve resolution id group stage).1.Pending id := by
  cases stage with
  | readingStatus watch =>
    simp only [World.resolve] at h ⊢
    rintro ⟨state, hstate, hstatus⟩
    cases hread : w.readState id with
    | none =>
      rw [hread] at hstate
      rw [readState_of_live hinv hlive hstate] at hread
      cases hread
    | some value =>
      simp only [hread] at h hstate
      by_cases hanswered : value.status = .answered
      · rw [if_pos hanswered] at hstate
        obtain rfl := Option.some.inj ((readState_of_live hinv hlive hstate).symm.trans hread)
        rw [hstatus] at hanswered
        cases hanswered
      · rw [if_neg hanswered] at h
        cases resolution <;> cases h
  | readingCount watch sensitive =>
    simp only [World.resolve] at h
    split at h <;> cases h
  | executing watch sensitive remaining =>
    simp only [World.resolve] at h ⊢
    split at h
    · next state count hstate hcount =>
      split_ifs at h ⊢
      rintro ⟨new, hnew, hstatus⟩
      rw [((resolved_execute resolution id group sensitive remaining state count).state new
        hnew).1] at hstatus
      cases hstatus
    · cases h
  | _ => cases h

theorem request_of_state {w : World} {state : Expiring InteractionState}
    (hinv : CountInv idleTtl w) (hasked : request ∈ w.asked)
    (hstate : w.keys.states request.interactionId = some state) :
    state.value.request = request := by
  obtain ⟨hasked', hid⟩ := hinv.states _ state hstate
  exact hinv.eq_of_id hasked' hasked hid

theorem pending_of_mem_pendingOf {w : World} {entries : List InteractionRequest}
    (hinv : CountInv idleTtl w) (h : request ∈ w.pendingOf entries) :
    request ∈ w.asked ∧ w.Pending request.interactionId := by
  obtain ⟨state, hstate, hrequest⟩ := List.mem_filterMap.mp h
  obtain ⟨entry, -, hread⟩ := List.mem_filterMap.mp hstate
  simp only [Option.ite_none_right_eq_some, Option.some.injEq] at hrequest
  obtain ⟨hstatus, rfl⟩ := hrequest
  obtain ⟨key, hkey, -, rfl⟩ := Expiring.read_eq_some.mp hread
  obtain ⟨hasked, hid⟩ := hinv.states _ key hkey
  exact ⟨hasked, key, by rwa [hid], hstatus⟩

theorem mem_pendingOf_of_pending {w : World} {entries : List InteractionRequest}
    (hinv : CountInv idleTtl w) (hlive : w.live = true) (hasked : request ∈ w.asked)
    (hmem : request ∈ entries) (hpending : w.Pending request.interactionId) :
    request ∈ w.pendingOf entries := by
  obtain ⟨state, hstate, hstatus⟩ := hpending
  refine List.mem_filterMap.mpr ⟨state.value, List.mem_filterMap.mpr ⟨request, hmem,
    readState_of_live hinv hlive hstate⟩, ?_⟩
  rw [if_pos hstatus, request_of_state hinv hasked hstate]

/-- The task of the backlog takes a step. -/
theorem Reads.stepBacklog {n : ℕ} {events : List Event} {w : World}
    (hreads : Reads ⟨w.stepBacklog n now groups found stage, events, c⟩ groups found stage)
    (hinv : CountInv idleTtl w) (hlist : ListInv idleTtl w) (hstream : StreamInv w)
    (hlive : w.live = true) (htask : w.tasks n = .backlog now groups found stage)
    {now' : Time} {groups' : List GroupId} {found' : List InteractionRequest}
    {stage' : BacklogStage} (htask' : (w.stepBacklog n now groups found stage).tasks n =
      .backlog now' groups' found' stage') :
    Reads ⟨w.stepBacklog n now groups found stage, events, c⟩ groups' found' stage' := by
  have hok : GroupsOk w (.backlog now groups found stage) := htask ▸ hstream.tasks n
  cases stage with
  | unlisting => exact absurd rfl hok.2.1
  | undating => exact absurd rfl hok.2.2
  | reading =>
    cases groups with
    | nil =>
      simp only [World.stepBacklog, World.goOn, Function.update_self] at htask'
      cases htask'
    | cons group rest =>
      obtain ⟨stream, hentries⟩ := hok.1 group List.mem_cons_self
      obtain ⟨hread, hne⟩ := StreamInv.readStream_ne_nil hlist hinv hlive hentries
      simp only [World.stepBacklog, World.goOn, Function.update_self, if_neg (hread ▸ hne)]
        at htask'
      obtain ⟨-, rfl, rfl, rfl⟩ := Task.backlog.inj htask'
      refine hreads.goOn (fun _ hfound => .inl hfound) fun request hasked hpending hawaited => ?_
      refine hawaited.imp_right (Or.imp_right ?_)
      rintro ⟨hhead, -⟩
      refine ⟨hhead, ?_⟩
      obtain ⟨state, hstate, -⟩ := hpending
      obtain ⟨stream', hstream', hmem⟩ := hstream.entered _ state hstate
      rw [request_of_state hinv hasked hstate] at hstream' hmem
      obtain rfl := Option.some.inj hhead
      obtain rfl := Option.some.inj (hentries.symm.trans hstream')
      show request ∈ w.readStream request.groupId
      rwa [hread]
  | inspecting entries =>
    simp only [World.stepBacklog, World.goOn, Function.update_self] at htask'
    refine hreads.goOn (fun request hrequest => ?_) fun request hasked hpending hawaited => ?_
    · rw [found_pruneNext htask'] at hrequest
      refine (List.mem_append.mp hrequest).imp_right fun hmem => ?_
      have hpending : request ∈ w.asked ∧ w.Pending request.interactionId :=
        pending_of_mem_pendingOf hinv (List.mem_filter.mp hmem).1
      exact hpending
    · refine awaited_pruneNext htask' ?_
      obtain hfound | htail | ⟨hhead, hmem⟩ := hawaited
      · exact .inl (List.mem_append_left _ hfound)
      · exact .inr (.inl htail)
      · have hpendingOf : request ∈ w.pendingOf entries :=
          mem_pendingOf_of_pending hinv hlive hasked hmem hpending
        by_cases hahead : now < request.timeoutAt
        · exact .inl (List.mem_append_right _ (List.mem_filter.mpr ⟨hpendingOf, by simpa⟩))
        · exact .inr (.inr ⟨hhead, List.mem_filter.mpr ⟨hpendingOf, by simpa using hahead⟩⟩)
  | pruning overdue stage =>
    cases groups with
    | nil =>
      simp only [World.stepBacklog, World.goOn, Function.update_self] at htask'
      cases htask'
    | cons group rest =>
      cases overdue with
      | nil =>
        simp only [World.stepBacklog, World.goOn, Function.update_self] at htask'
        cases htask'
      | cons first overdue =>
        have hnot : ∀ claimed, (w.resolve .prune first.interactionId group stage).2 =
            .returned claimed → ¬(w.resolve .prune first.interactionId group
              stage).1.Pending first.interactionId :=
          fun _ h => not_pending_of_returned hinv hlive h
        simp only [World.stepBacklog, World.goOn, Function.update_self] at htask'
        split at htask'
        · obtain ⟨-, rfl, rfl, rfl⟩ := Task.backlog.inj htask'
          exact hreads.goOn (fun _ hfound => .inl hfound) fun _ _ _ hawaited => hawaited
        · next claimed houtcome =>
          refine hreads.goOn (fun request hrequest => ?_) fun request hasked hpending hawaited => ?_
          · exact .inl (found_pruneNext htask' ▸ hrequest)
          · refine awaited_pruneNext htask' (hawaited.imp_right (Or.imp_right ?_))
            rintro ⟨hhead, hmem⟩
            obtain rfl | hmem := List.mem_cons.mp hmem
            · exact absurd hpending (hnot claimed houtcome)
            · exact ⟨hhead, hmem⟩
        · cases htask'

/-- The task of the backlog lists the groups. -/
theorem Reads.list {w : World} {events : List Event} {n : ℕ} {task : Task} {groups : List GroupId}
    (hinv : CountInv idleTtl w) (hlist : ListInv idleTtl w) (hlive : w.live = true)
    (hgroups : groups = w.keys.pending.range (· ≤ ·)) (hopened : c.openedAt = w.clock)
    (hlisted : c.listed = groups) : Reads ⟨w.goOn n task, events, c⟩ groups [] .reading where
  sound _ hrequest := by cases hrequest
  awaited request hasked hpending := by
    by_cases hgroup : request.groupId ∈ groups
    · exact .inl (awaited_of_mem hgroup)
    · refine .inr (.inr ⟨?_, hlisted ▸ hgroup⟩)
      rw [hopened]
      by_contra hahead
      obtain ⟨state, hstate, hstatus⟩ : w.Pending request.interactionId := hpending
      have hrequest := request_of_state hinv hasked hstate
      have hread := readState_of_live hinv hlive hstate
      obtain ⟨key, hkey, hle, -⟩ := Expiring.read_eq_some.mp hread
      obtain rfl := Option.some.inj (hkey.symm.trans hstate)
      obtain ⟨⟨score, hscore⟩, -⟩ := hlist.listed _ key hstate hstatus hle
        (by rw [hrequest]; exact not_le.mp hahead)
      rw [hrequest] at hscore
      exact hgroup (hgroups ▸ SortedSet.mem_range.mpr ⟨score, hscore⟩)

end Inbox

end TaiSkeleton.Interactions
