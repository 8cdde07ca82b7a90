import TaiSkeleton.Hooks.RegistryShows

/-!
# The registry under interleaved calls

The scripts keep the map and the hashes of the topics at one registry in every run. A listing reads
them at different times: it misses a name that moves to another topic after the map was read and
before its hook is.
-/

namespace TaiSkeleton.Hooks.Registry

open Lib

variable {η : Type} {settings : HooksSettings} {M : HookModel η} {s s' : State}

/-! ## The Redis of every run -/

/-- What a step does. -/
theorem step_cases {a : Act η} (h : s.step settings M a = some s') :
    (∃ params redis, a = .register params ∧
      redis = registerLua settings s.redis (M.topic params) (M.name params)
        (M.modelDumpJson params) ∧
      s' = ⟨redis, s.calls.map (Call.watch settings redis)⟩) ∨
    (∃ name redis, a = .unregister name ∧ redis = (unregisterLua settings s.redis name).1 ∧
      s' = ⟨redis, s.calls.map (Call.watch settings redis)⟩) ∨
    (a = .start ∧ s' = { s with calls := s.calls ++ [⟨Listing.start settings s.redis,
      isRegistered settings s.redis, isRegistered settings s.redis⟩] }) ∨
    ∃ n call listing, a = .next n ∧ s.calls[n]? = some call ∧
      call.listing.next settings s.redis = some listing ∧
      s' = { s with calls := s.calls.set n { call with listing } } := by
  cases a with
  | register params =>
    simp only [State.step] at h
    split at h
    · cases h
    · exact .inl ⟨params, _, rfl, rfl, (Option.some.inj h).symm⟩
  | unregister name => exact .inr (.inl ⟨name, _, rfl, rfl, (Option.some.inj h).symm⟩)
  | start => exact .inr (.inr (.inl ⟨rfl, (Option.some.inj h).symm⟩))
  | next n =>
    obtain ⟨call, hcall, hrest⟩ := Option.bind_eq_some_iff.mp h
    obtain ⟨listing, hnext, hrest⟩ := Option.bind_eq_some_iff.mp hrest
    exact .inr (.inr (.inr ⟨n, call, listing, rfl, hcall, hnext, (Option.some.inj hrest).symm⟩))

theorem shows_step {reg : Filing η} (h : RedisShows settings M s.redis reg) {a : Act η}
    (hstep : s.step settings M a = some s') : ∃ reg', RedisShows settings M s'.redis reg' := by
  obtain ⟨params, redis, -, rfl, rfl⟩ | ⟨name, redis, -, rfl, rfl⟩ | ⟨-, rfl⟩ |
    ⟨n, call, listing, -, -, -, rfl⟩ := step_cases hstep
  · exact ⟨_, h.register params⟩
  · exact ⟨_, (h.unregister name).1⟩
  · exact ⟨reg, h⟩
  · exact ⟨reg, h⟩

theorem exists_shows (h : (redisRuns settings M).Reachable s) :
    ∃ reg, RedisShows settings M s.redis reg := by
  refine h.invariant (p := fun s => ∃ reg, RedisShows settings M s.redis reg) ?_ ?_
  · rintro s rfl
    exact ⟨_, redisShows_empty⟩
  · rintro s a s' ⟨reg, hshows⟩ hstep
    exact shows_step hshows hstep

/-! ## A listing on the way -/

variable (settings M) in
/-- A move of a name waits while a listing has it to read under its topic. -/
def Unmoved (s : State) : Act η → Prop
  | .register params => ∀ call ∈ s.calls, ∀ topic, (M.name params, topic) ∈ call.listing.pending →
      s.redis.hget settings.nameTriggerMapKey (M.name params) = some topic → M.topic params = topic
  | _ => True

variable (settings M) in
/-- What a listing has read was there, and what has been there all the while it has read or will
read. -/
structure Call.Ok (r : Redis) (call : Call) : Prop where
  steady : ∀ name, call.steady name = true →
    (∃ topic, (name, topic) ∈ call.listing.pending ∧
      r.hget settings.nameTriggerMapKey name = some topic) ∨
    ∃ params, (name, some (M.modelDumpJson params)) ∈ call.listing.results
  seen : call.listing.pending ≠ [] → ∀ name, isRegistered settings r name = true →
    call.seen name = true
  read : ∀ name json, (name, some json) ∈ call.listing.results →
    call.seen name = true ∧ ∃ params, json = M.modelDumpJson params

variable {r r' : Redis} {call : Call}

/-- A call that is over stays as it is. -/
theorem Call.Ok.over (h : call.Ok settings M r) (hover : call.listing.pending = []) :
    call.Ok settings M r' := by
  refine ⟨fun name hsteady => ?_, fun hne => absurd hover hne, h.read⟩
  rcases h.steady name hsteady with ⟨topic, hmem, -⟩ | hread
  · rw [hover] at hmem
    cases hmem
  · exact .inr hread

/-- The scripts leave a call as it should be, where no name it has to read changes its topic. -/
theorem Call.Ok.watch (h : call.Ok settings M r)
    (hkeep : ∀ name topic, (name, topic) ∈ call.listing.pending →
      r.hget settings.nameTriggerMapKey name = some topic →
      isRegistered settings r' name = true →
      r'.hget settings.nameTriggerMapKey name = some topic) :
    (call.watch settings r').Ok settings M r' := by
  unfold Call.watch
  split_ifs with hover
  · exact h.over (List.isEmpty_iff.mp hover)
  · refine ⟨fun name hsteady => ?_, fun _ name hreg => ?_, fun name json hmem => ?_⟩
    · rw [Bool.and_eq_true] at hsteady
      rcases h.steady name hsteady.1 with ⟨topic, hmem, htopic⟩ | hread
      · exact .inl ⟨topic, hmem, hkeep name topic hmem htopic hsteady.2⟩
      · exact .inr hread
    · simp [hreg]
    · obtain ⟨hseen, hparams⟩ := h.read name json hmem
      simp [hseen, hparams]

/-- A command of a listing. -/
theorem Call.Ok.next {reg : Filing η} (h : call.Ok settings M r)
    (hshows : RedisShows settings M r reg) {listing : Listing}
    (hnext : call.listing.next settings r = some listing) :
    ({ call with listing } : Call).Ok settings M r := by
  obtain ⟨⟨pending, results⟩, steady, seen⟩ := call
  cases pending with
  | nil => cases hnext
  | cons entry pending =>
    obtain ⟨first, at'⟩ := entry
    obtain rfl := Option.some.inj hnext
    have hseen := h.seen (List.cons_ne_nil _ _)
    refine ⟨fun name hsteady => ?_, fun _ => hseen, fun name json hmem => ?_⟩
    · rcases h.steady name hsteady with ⟨topic, hmem, htopic⟩ | ⟨params, hread⟩
      · rcases List.mem_cons.mp hmem with heq | hmem
        · obtain ⟨rfl, rfl⟩ := Prod.mk.inj heq
          rw [Redis.hget, hshows.topics] at htopic
          obtain ⟨params, hparams⟩ := Option.isSome_iff_exists.mp (Filing.isSome_listed.mpr htopic)
          refine .inr ⟨params, List.mem_append_right _ ?_⟩
          rw [Redis.hget, hshows.hooks, hparams]
          exact List.mem_cons_self ..
        · exact .inl ⟨topic, hmem, htopic⟩
      · exact .inr ⟨params, List.mem_append_left _ hread⟩
    · rcases List.mem_append.mp hmem with hmem | hmem
      · exact h.read name json hmem
      · obtain ⟨rfl, hget⟩ := Prod.mk.inj (List.mem_singleton.mp hmem)
        rw [Redis.hget, hshows.hooks] at hget
        obtain ⟨params, hparams, hjson⟩ := Option.map_eq_some_iff.mp hget.symm
        refine ⟨hseen name ?_, params, hjson.symm⟩
        rw [isRegistered, Redis.hget, hshows.topics,
          Filing.isSome_listed.mp (Option.isSome_iff_exists.mpr ⟨params, hparams⟩)]
        rfl

/-- A listing begins. -/
theorem Call.ok_start : Call.Ok settings M r
    ⟨Listing.start settings r, isRegistered settings r, isRegistered settings r⟩ where
  steady name hsteady := by
    obtain ⟨topic, htopic⟩ := Option.isSome_iff_exists.mp hsteady
    exact .inl ⟨topic, mem_of_lookup htopic, htopic⟩
  seen _ _ hreg := hreg
  read _ _ hmem := absurd hmem List.not_mem_nil

theorem calls_step {reg : Filing η} (hshows : RedisShows settings M s.redis reg)
    (h : ∀ call ∈ s.calls, call.Ok settings M s.redis) {a : Act η}
    (hunmoved : Unmoved settings M s a) (hstep : s.step settings M a = some s') :
    ∀ call ∈ s'.calls, call.Ok settings M s'.redis := by
  obtain ⟨params, redis, rfl, rfl, rfl⟩ | ⟨name, redis, rfl, rfl, rfl⟩ | ⟨rfl, rfl⟩ |
    ⟨n, call, listing, rfl, hcall, hnext, rfl⟩ := step_cases hstep
  · intro call' hmem'
    obtain ⟨call, hmem, rfl⟩ := List.mem_map.mp hmem'
    refine (h call hmem).watch fun name topic hpending htopic _ => ?_
    rw [Redis.hget, (hshows.register params).topics, Filing.register]
    rw [Redis.hget, hshows.topics] at htopic
    split_ifs with hname
    · subst hname
      have hsame := hunmoved call hmem topic hpending
        (by rw [Redis.hget, hshows.topics, htopic])
      exact congrArg some hsame
    · exact htopic
  · intro call' hmem'
    obtain ⟨call, hmem, rfl⟩ := List.mem_map.mp hmem'
    refine (h call hmem).watch fun n topic hpending htopic hreg => ?_
    rw [isRegistered, Redis.hget, (hshows.unregister name).1.topics, Filing.unregister] at hreg
    rw [Redis.hget, (hshows.unregister name).1.topics, Filing.unregister]
    rw [Redis.hget, hshows.topics] at htopic
    by_cases hname : n = name
    · rw [if_pos hname] at hreg
      cases hreg
    · rw [if_neg hname]
      exact htopic
  · intro call hmem
    rcases List.mem_append.mp hmem with hmem | hmem
    · exact h call hmem
    · obtain rfl := List.mem_singleton.mp hmem
      exact Call.ok_start
  · intro call' hmem
    rcases List.mem_or_eq_of_mem_set hmem with hmem | rfl
    · exact h call' hmem
    · exact (h call (List.mem_of_getElem? hcall)).next hshows hnext

theorem calls_ok (h : ((redisRuns settings M).when (Unmoved settings M)).Reachable s) :
    ∀ call ∈ s.calls, call.Ok settings M s.redis := by
  have hboth := h.invariant (p := fun s => (∃ reg, RedisShows settings M s.redis reg) ∧
    ∀ call ∈ s.calls, call.Ok settings M s.redis) ?_ ?_
  · exact hboth.2
  · rintro s rfl
    exact ⟨⟨_, redisShows_empty⟩, fun call hmem => absurd hmem List.not_mem_nil⟩
  · rintro s a s' ⟨⟨reg, hshows⟩, hcalls⟩ ⟨hunmoved, hstep⟩
    exact ⟨shows_step hshows hstep, calls_step hshows hcalls hunmoved hstep⟩

/-! ## Consistency -/

variable (settings M) in
/-- A name is listed under the topic that the map has for it, and under no other. -/
def Filed (r : Redis) : Prop :=
  ∀ topic, ∃ hooks, listHooksByTopic settings M r topic = .ok hooks ∧
    ∀ name, name ∈ hooks.map Prod.fst ↔ r.hget settings.nameTriggerMapKey name = some topic

variable (M) in
/-- What a listing that is over returns was registered during it, and it returns what stayed
registered throughout. -/
def Call.Complete (call : Call) : Prop :=
  call.listing.pending = [] → ∃ hooks, call.listing.outcome M = .ok hooks ∧
    ∀ name, (call.steady name = true → name ∈ hooks.map Prod.fst) ∧
      (name ∈ hooks.map Prod.fst → call.seen name = true)

variable (settings M) in
/-- The answers of the Redis manager to one call after another. -/
def redisAnswers (r : Redis) : List (Op η) → List (Answer η)
  | [] => []
  | op :: ops => (redisOp settings M r op).2 :: redisAnswers (redisOp settings M r op).1 ops

variable (settings M) in
/-- The answers of the in-memory manager. -/
def memoryAnswers (m : Memory η) : List (Op η) → List (Answer η)
  | [] => []
  | op :: ops => (memoryOp settings M m op).2 :: memoryAnswers (memoryOp settings M m op).1 ops

variable (settings) in
/-- A call that unregisters no name from the empty topic. -/
def unblank (r : Redis) : Op η → Bool
  | .unregister name => r.hget settings.nameTriggerMapKey name != some ""
  | _ => true

variable (settings M) in
/-- Calls of which none unregisters a name from the empty topic. -/
def allUnblank (r : Redis) : List (Op η) → Bool
  | [] => true
  | op :: ops => unblank settings r op && allUnblank (redisOp settings M r op).1 ops

theorem mem_outcome {r : Redis} {call : Call} (h : call.Ok settings M r)
    (hload : ∀ params, M.modelValidateJson (M.modelDumpJson params) = .ok params)
    (hdump : ∀ params, M.modelDumpJson params ≠ "") : call.Complete M := by
  intro hover
  refine ⟨_, outcome_eq fun name json hmem => ?_, fun name => ⟨fun hsteady => ?_, fun hmem => ?_⟩⟩
  · obtain ⟨-, params, rfl⟩ := h.read name json hmem
    exact ⟨hdump params, params, hload params⟩
  · rcases h.steady name hsteady with ⟨topic, hpending, -⟩ | ⟨params, hread⟩
    · rw [hover] at hpending
      cases hpending
    · refine List.mem_map.mpr ⟨(name, params), List.mem_filterMap.mpr ⟨_, hread, ?_⟩, rfl⟩
      simp [hload, Except.toOption]
  · obtain ⟨⟨n, params⟩, hfound, rfl⟩ := List.mem_map.mp hmem
    obtain ⟨⟨n', hookJson⟩, hread, hhook⟩ := List.mem_filterMap.mp hfound
    cases hookJson with
    | none => cases hhook
    | some json =>
      obtain ⟨value, -, hpair⟩ := Option.map_eq_some_iff.mp hhook
      obtain ⟨rfl, -⟩ := Prod.mk.inj hpair
      exact (h.read _ json hread).1

theorem filed_of_shows {r : Redis} {reg : Filing η} (h : RedisShows settings M r reg)
    (hload : ∀ params, M.modelValidateJson (M.modelDumpJson params) = .ok params) :
    Filed settings M r := by
  intro topic
  have hanswer := h.listHooksByTopic hload topic
  cases hfound : listHooksByTopic settings M r topic with
  | error text =>
    rw [hfound] at hanswer
    cases hanswer
  | ok hooks =>
    rw [hfound] at hanswer
    refine ⟨hooks, rfl, fun name => ?_⟩
    have hlookup : hooks.lookup name = reg.listed topic name :=
      congrFun (Answer.hooks.inj hanswer) name
    rw [Redis.hget, h.topics, ← Filing.isSome_listed, ← hlookup]
    constructor
    · intro hmem
      obtain ⟨⟨n, params⟩, hpair, rfl⟩ := List.mem_map.mp hmem
      cases hnone : hooks.lookup n with
      | some found => rfl
      | none => simpa using List.lookup_eq_none_iff.mp hnone _ hpair
    · intro hsome
      obtain ⟨params, hparams⟩ := Option.isSome_iff_exists.mp hsome
      exact List.mem_map.mpr ⟨_, mem_of_lookup hparams, rfl⟩

theorem answers_eq {r : Redis} {m : Memory η} {reg : Filing η} (hr : RedisShows settings M r reg)
    (hm : MemoryShows settings m reg)
    (hload : ∀ params, M.modelValidateJson (M.modelDumpJson params) = .ok params)
    (hdump : ∀ params, M.modelDumpJson params ≠ "") {ops : List (Op η)}
    (hblank : allUnblank settings M r ops = true) :
    redisAnswers settings M r ops = memoryAnswers settings M m ops := by
  induction ops generalizing r m reg with
  | nil => rfl
  | cons op ops ih =>
    obtain ⟨hfirst, hrest⟩ := Bool.and_eq_true_iff.mp hblank
    have hunblank : reg.unblank op = true := by
      cases op with
      | unregister name =>
        rw [unblank, Redis.hget, hr.topics] at hfirst
        exact hfirst
      | _ => rfl
    obtain ⟨hr', hanswer⟩ := hr.op hload hdump op
    obtain ⟨hm', hanswer'⟩ := hm.op (M := M) hunblank
    rw [redisAnswers, memoryAnswers, hanswer, hanswer', ih hr' hm' hrest]

/-- In every run the map and the topics agree; a listing that no name moves under is complete; and
the two managers give the same answers, where no name is unregistered from the empty topic. -/
theorem registry_consistent
    (hload : ∀ params, M.modelValidateJson (M.modelDumpJson params) = .ok params)
    (hdump : ∀ params, M.modelDumpJson params ≠ "") :
    (∀ s, (redisRuns settings M).Reachable s → Filed settings M s.redis) ∧
    (∀ s, ((redisRuns settings M).when (Unmoved settings M)).Reachable s →
      ∀ call ∈ s.calls, call.Complete M) ∧
    ∀ ops, allUnblank settings M (fun _ => []) ops = true →
      redisAnswers settings M (fun _ => []) ops = memoryAnswers settings M {} ops := by
  refine ⟨fun s hs => ?_, fun s hs call hmem => ?_, fun ops hops => ?_⟩
  · obtain ⟨reg, hshows⟩ := exists_shows hs
    exact filed_of_shows hshows hload
  · exact mem_outcome (calls_ok hs call hmem) hload hdump
  · exact answers_eq redisShows_empty memoryShows_empty hload hdump hops

/-! ## A hidden hook -/

/-- A hook on the orders (`false`) or on the returns (`true`), and its JSON. -/
def moving : HookModel Bool where
  name _ := "mv"
  topic onReturns := if onReturns then "returns" else "orders"
  modelDumpJson onReturns :=
    if onReturns then "\x7b\"name\":\"mv\",\"topic\":\"returns\",\"tool\":\"notify\"\x7d"
    else "\x7b\"name\":\"mv\",\"topic\":\"orders\",\"tool\":\"notify\"\x7d"
  modelValidateJson json :=
    if json = "\x7b\"name\":\"mv\",\"topic\":\"returns\",\"tool\":\"notify\"\x7d" then .ok true
    else if json = "\x7b\"name\":\"mv\",\"topic\":\"orders\",\"tool\":\"notify\"\x7d" then
      .ok false
    else .error "Invalid JSON"
  validateJqFields _ := .ok ()

theorem registry_consistent_moving :
    (∀ s, (redisRuns ⟨"hooks"⟩ moving).Reachable s → Filed ⟨"hooks"⟩ moving s.redis) ∧
    (∀ s, ((redisRuns ⟨"hooks"⟩ moving).when (Unmoved ⟨"hooks"⟩ moving)).Reachable s →
      ∀ call ∈ s.calls, call.Complete moving) ∧
    ∀ ops, allUnblank ⟨"hooks"⟩ moving (fun _ => []) ops = true →
      redisAnswers ⟨"hooks"⟩ moving (fun _ => []) ops = memoryAnswers ⟨"hooks"⟩ moving {} ops :=
  registry_consistent (by decide) (by decide)

/-- A hook that moves between the two reads of a listing is not in it, though it is registered all
the while. -/
theorem moved_hook_unlisted :
    ¬ ∀ s, (redisRuns ⟨"hooks"⟩ moving).Reachable s → ∀ call ∈ s.calls, call.Complete moving := by
  intro h
  have hmoved : (([.register false, .start, .register true, .next 0] : List (Act Bool)).foldlM
      (State.step ⟨"hooks"⟩ moving) {}).any
        (fun s => s.calls.any fun call => call.listing.pending.isEmpty && call.steady "mv" &&
          call.listing.results == [("mv", none)]) = true := by
    decide +kernel
  obtain ⟨s, hs, hcalls⟩ := System.Reachable.of_foldlM
    (S := redisRuns ⟨"hooks"⟩ moving) (fun _ _ _ hstep => hstep) rfl hmoved
  obtain ⟨call, hmem, hcall⟩ := List.any_eq_true.mp hcalls
  obtain ⟨⟨hover, hsteady⟩, hresults⟩ : (call.listing.pending = [] ∧ call.steady "mv" = true) ∧
      call.listing.results = [("mv", none)] := by
    simpa using hcall
  obtain ⟨hooks, houtcome, hnames⟩ := h s hs call hmem hover
  have hlisted := (hnames "mv").1 hsteady
  rw [Listing.outcome, hresults] at houtcome
  obtain rfl := Except.ok.inj houtcome
  cases hlisted

end TaiSkeleton.Hooks.Registry
