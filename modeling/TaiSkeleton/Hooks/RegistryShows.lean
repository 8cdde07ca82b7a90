import TaiSkeleton.Hooks.Registry

/-!
# One registry, shown by two managers

A registry has for each name a topic and a hook. Both managers show one, call by call; they part
only where a name is unregistered from the empty topic, which the in-memory manager takes for a name
that it does not have.
-/

namespace TaiSkeleton.Hooks.Registry

open Lib

variable {η : Type} {settings : HooksSettings} {M : HookModel η}

/-! ## The keys -/

theorem append_cancel_left {s t u : String} (h : s ++ t = s ++ u) : t = u := by
  have hlist := congrArg String.toList h
  rw [String.toList_append, String.toList_append] at hlist
  exact String.toList_inj.mp (List.append_cancel_left hlist)

@[simp] theorem getHookKey_inj {topic topic' : String} :
    settings.getHookKey topic = settings.getHookKey topic' ↔ topic = topic' := by
  refine ⟨fun h => append_cancel_left h, fun h => ?_⟩
  rw [h]

theorem getHookKey_ne_map (topic : String) :
    settings.getHookKey topic ≠ settings.nameTriggerMapKey := by
  intro h
  unfold HooksSettings.getHookKey HooksSettings.nameTriggerMapKey at h
  rw [String.append_assoc] at h
  have hlist := congrArg String.toList (append_cancel_left h)
  simp at hlist

namespace Redis

theorem lookup_hset (r : Redis) (key field value k f : String) :
    ((r.hset key field value) k).lookup f =
      if k = key ∧ f = field then some value else (r k).lookup f := by
  unfold hset
  by_cases hk : k = key
  · subst hk
    rw [if_pos rfl, lookup_dictPut]
    simp
  · simp [hk]

theorem lookup_hdel (r : Redis) (key field k f : String) :
    ((r.hdel key field) k).lookup f =
      if k = key ∧ f = field then none else (r k).lookup f := by
  unfold hdel
  by_cases hk : k = key
  · subst hk
    rw [if_pos rfl, lookup_dictPop]
    simp
  · simp [hk]

end Redis

/-! ## The registry -/

/-- The topic and the hook of each name. -/
abbrev Filing (η : Type) := String → Option (String × η)

namespace Filing

variable (M) in
def register (reg : Filing η) (params : η) : Filing η := fun name =>
  if name = M.name params then some (M.topic params, params) else reg name

def unregister (reg : Filing η) (name : String) : Filing η := fun n =>
  if n = name then none else reg n

/-- The hook of a name on a topic. -/
def listed (reg : Filing η) (topic name : String) : Option η :=
  (reg name).bind fun entry => if entry.1 = topic then some entry.2 else none

theorem listed_eq_none {reg : Filing η} {topic name : String}
    (h : (reg name).map Prod.fst ≠ some topic) : reg.listed topic name = none := by
  unfold listed
  cases hreg : reg name with
  | none => rfl
  | some entry =>
    rw [hreg] at h
    exact if_neg fun htopic => h (congrArg some htopic)

theorem isSome_listed {reg : Filing η} {topic name : String} :
    (reg.listed topic name).isSome = true ↔ (reg name).map Prod.fst = some topic := by
  unfold listed
  cases reg name with
  | none => simp
  | some entry =>
    by_cases h : entry.1 = topic
    · simp [h]
    · simp [h]

variable (M) in
/-- What a call makes of the registry, and what it answers. -/
def op (reg : Filing η) : Op η → Filing η × Answer η
  | .register params =>
    match M.validateJqFields params with
    | .error text => (reg, .raised text)
    | .ok () => (reg.register M params, .flag true)
  | .unregister name => (reg.unregister name, .flag (reg name).isSome)
  | .listHooks => (reg, .hooks fun name => (reg name).map Prod.snd)
  | .listHooksByTopic topic => (reg, .hooks (reg.listed topic))

end Filing

/-! ## What the Redis manager shows -/

variable (settings M) in
/-- The map has the topics, and the hash of a topic the JSON of its hooks. -/
structure RedisShows (r : Redis) (reg : Filing η) : Prop where
  topics : ∀ name, (r settings.nameTriggerMapKey).lookup name = (reg name).map Prod.fst
  hooks : ∀ topic name, (r (settings.getHookKey topic)).lookup name =
    (reg.listed topic name).map M.modelDumpJson
  stored : ∀ topic, ∀ entry ∈ r (settings.getHookKey topic), ∃ params,
    entry.2 = M.modelDumpJson params

variable {r : Redis} {reg : Filing η}

theorem redisShows_empty : RedisShows settings M (fun _ => []) fun _ => none where
  topics _ := rfl
  hooks _ _ := rfl
  stored _ _ hmem := absurd hmem List.not_mem_nil

/-- A register takes the name from its old topic, if that is another, and then files it. -/
theorem RedisShows.registerLua_eq (h : RedisShows settings M r reg) (params : η) :
    ∃ moved : Redis,
      registerLua settings r (M.topic params) (M.name params) (M.modelDumpJson params) =
        (moved.hset (settings.getHookKey (M.topic params)) (M.name params)
          (M.modelDumpJson params)).hset settings.nameTriggerMapKey (M.name params)
          (M.topic params) ∧
      (moved = r ∧ (∀ prev, (reg (M.name params)).map Prod.fst = some prev →
          prev = M.topic params) ∨
        ∃ prev, (reg (M.name params)).map Prod.fst = some prev ∧
          moved = r.hdel (settings.getHookKey prev) (M.name params)) := by
  refine ⟨_, rfl, ?_⟩
  have htopic := h.topics (M.name params)
  unfold Redis.hget
  rw [htopic]
  cases (reg (M.name params)).map Prod.fst with
  | none => exact .inl ⟨rfl, fun prev hprev => nomatch hprev⟩
  | some prev =>
    by_cases hne : prev ≠ M.topic params
    · exact .inr ⟨prev, rfl, if_pos hne⟩
    · refine .inl ⟨if_neg hne, fun prev' hprev => ?_⟩
      rw [← Option.some.inj hprev]
      exact not_not.mp hne

theorem RedisShows.register (h : RedisShows settings M r reg) (params : η) :
    RedisShows settings M (registerLua settings r (M.topic params) (M.name params)
      (M.modelDumpJson params)) (reg.register M params) := by
  obtain ⟨moved, hmoved, hdel⟩ := h.registerLua_eq params
  rw [hmoved]
  refine ⟨?_, ?_, ?_⟩
  · intro name
    rw [Redis.lookup_hset, Redis.lookup_hset]
    simp only [(getHookKey_ne_map _).symm, false_and, if_false, true_and, Filing.register]
    by_cases hname : name = M.name params
    · simp [hname]
    · rw [if_neg hname, if_neg hname, ← h.topics]
      obtain ⟨rfl, -⟩ | ⟨prev, -, rfl⟩ := hdel
      · rfl
      · rw [Redis.lookup_hdel]
        simp [(getHookKey_ne_map _).symm]
  · intro topic name
    rw [Redis.lookup_hset, Redis.lookup_hset]
    simp only [getHookKey_ne_map, false_and, if_false, getHookKey_inj]
    by_cases hname : name = M.name params
    · subst hname
      by_cases htopic : topic = M.topic params
      · simp [htopic, Filing.listed, Filing.register]
      · have hreg : (reg.register M params).listed topic (M.name params) = none := by
          refine Filing.listed_eq_none ?_
          simpa [Filing.register] using Ne.symm htopic
        simp only [htopic, false_and, if_false, hreg, Option.map_none]
        obtain ⟨rfl, hprev⟩ | ⟨prev, hprev, rfl⟩ := hdel
        · rw [h.hooks, Filing.listed_eq_none fun hlisted => htopic (hprev topic hlisted)]
          rfl
        · rw [Redis.lookup_hdel]
          by_cases ht : topic = prev
          · simp [ht]
          · simp only [getHookKey_inj, ht, false_and, if_false]
            rw [h.hooks, Filing.listed_eq_none]
            · rfl
            · rw [hprev]
              exact fun heq => ht (Option.some.inj heq).symm
    · have hreg : (reg.register M params).listed topic name = reg.listed topic name := by
        simp [Filing.listed, Filing.register, hname]
      simp only [hname, and_false, if_false, hreg, ← h.hooks]
      obtain ⟨rfl, -⟩ | ⟨prev, -, rfl⟩ := hdel
      · rfl
      · rw [Redis.lookup_hdel]
        simp [hname]
  · intro topic entry hmem
    have hold : entry ∈ moved (settings.getHookKey topic) → ∃ params,
        entry.2 = M.modelDumpJson params := by
      intro hmem
      refine h.stored topic entry ?_
      obtain ⟨rfl, -⟩ | ⟨prev, -, rfl⟩ := hdel
      · exact hmem
      · unfold Redis.hdel at hmem
        split_ifs at hmem with hkey
        · rw [hkey]
          exact (List.mem_filter.mp hmem).1
        · exact hmem
    simp only [Redis.hset, if_neg (getHookKey_ne_map topic)] at hmem
    split_ifs at hmem with hkey
    · rcases mem_dictPut hmem with hmem | rfl
      · exact hold (hkey ▸ hmem)
      · exact ⟨params, rfl⟩
    · exact hold hmem

theorem RedisShows.unregister (h : RedisShows settings M r reg) (name : String) :
    RedisShows settings M (unregisterLua settings r name).1 (reg.unregister name) ∧
      (unregisterLua settings r name).2 = (reg name).isSome := by
  have htopic := h.topics name
  unfold unregisterLua Redis.hget
  rw [htopic]
  cases hreg : reg name with
  | none =>
    have hsame : reg.unregister name = reg := by
      funext n
      by_cases hn : n = name
      · rw [Filing.unregister, if_pos hn, hn, hreg]
      · exact if_neg hn
    rw [hsame]
    exact ⟨h, rfl⟩
  | some entry =>
    rw [hreg] at htopic
    have hmap : ((r.hdel (settings.getHookKey entry.1) name) settings.nameTriggerMapKey).lookup
        name = some entry.1 := by
      rw [Redis.lookup_hdel, htopic]
      simp [(getHookKey_ne_map _).symm]
    refine ⟨⟨?_, ?_, ?_⟩, ?_⟩
    · intro n
      change ((Redis.hdel (r.hdel (settings.getHookKey entry.1) name) _ name) _).lookup n = _
      rw [Redis.lookup_hdel, Redis.lookup_hdel]
      by_cases hn : n = name
      · simp [hn, Filing.unregister]
      · simp [hn, Filing.unregister, h.topics]
    · intro topic n
      change ((Redis.hdel (r.hdel (settings.getHookKey entry.1) name) _ name) _).lookup n = _
      rw [Redis.lookup_hdel, Redis.lookup_hdel]
      simp only [getHookKey_ne_map, false_and, if_false, getHookKey_inj]
      by_cases hn : n = name
      · subst hn
        have hnone : (reg.unregister n).listed topic n = none := by
          simp [Filing.listed, Filing.unregister]
        by_cases ht : topic = entry.1
        · rw [if_pos ⟨ht, rfl⟩, hnone]
          rfl
        · simp only [ht, false_and, if_false, hnone]
          rw [h.hooks, Filing.listed_eq_none]
          rw [hreg]
          exact fun heq => ht (Option.some.inj heq).symm
      · simp [hn, Filing.unregister, Filing.listed, h.hooks]
    · intro topic entry' hmem
      change entry' ∈ (Redis.hdel (r.hdel (settings.getHookKey entry.1) name) _ name) _ at hmem
      simp only [Redis.hdel, if_neg (getHookKey_ne_map topic)] at hmem
      split_ifs at hmem with hkey
      · exact h.stored topic entry' (hkey ▸ (List.mem_filter.mp hmem).1)
      · exact h.stored topic entry' hmem
    · change (_ || (((r.hdel (settings.getHookKey entry.1) name) _).lookup name).isSome) = true
      rw [hmap]
      simp

/-! ## What a listing answers -/

/-- A listing whose hooks all read back has them in order. -/
theorem outcome_eq {l : Listing}
    (h : ∀ name json, (name, some json) ∈ l.results → json ≠ "" ∧
      ∃ params, M.modelValidateJson json = .ok params) :
    l.outcome M = .ok (l.results.filterMap fun (name, hookJson) =>
      (hookJson.bind fun json => (M.modelValidateJson json).toOption).map (name, ·)) := by
  refine collect_eq_filterMap ?_
  rintro ⟨name, hookJson⟩ hmem
  cases hookJson with
  | none => rfl
  | some json =>
    obtain ⟨hne, params, hload⟩ := h name json hmem
    simp [hne, hload, Except.map, Except.toOption]

variable (hload : ∀ params, M.modelValidateJson (M.modelDumpJson params) = .ok params)
  (hdump : ∀ params, M.modelDumpJson params ≠ "")

include hload hdump in
theorem RedisShows.listHooks (h : RedisShows settings M r reg) :
    (Answer.ofHooks (((Listing.start settings r).finish settings r).outcome M)) =
      .hooks fun name => (reg name).map Prod.snd := by
  rw [outcome_eq]
  · simp only [Answer.ofHooks, Listing.start, Listing.finish, List.nil_append, List.filterMap_map,
      Answer.hooks.injEq]
    funext name
    have hread : ∀ topic, (r.hget (settings.getHookKey topic) name).bind
        (fun json => (M.modelValidateJson json).toOption) = reg.listed topic name := by
      intro topic
      rw [Redis.hget, h.hooks]
      cases reg.listed topic name with
      | none => rfl
      | some params => simp [hload, Except.toOption]
    refine (lookup_filterMap_value (f := fun name topic =>
      (r.hget (settings.getHookKey topic) name).bind
        fun json => (M.modelValidateJson json).toOption) ?_).trans ?_
    · intro topic htopic
      rw [h.topics] at htopic
      rw [hread]
      exact Filing.isSome_listed.mpr htopic
    · rw [h.topics]
      cases hreg : reg name with
      | none => rfl
      | some entry =>
        simp only [Option.map_some, Option.bind_some, hread]
        simp [Filing.listed, hreg]
  · intro name json hmem
    obtain ⟨topic, -, hget⟩ : ∃ topic, (name, topic) ∈ r settings.nameTriggerMapKey ∧
        r.hget (settings.getHookKey topic) name = some json := by
      simpa [Listing.start, Listing.finish] using hmem
    rw [Redis.hget, h.hooks] at hget
    obtain ⟨params, -, rfl⟩ := Option.map_eq_some_iff.mp hget
    exact ⟨hdump params, params, hload params⟩

include hload in
theorem RedisShows.listHooksByTopic (h : RedisShows settings M r reg) (topic : String) :
    (Answer.ofHooks (listHooksByTopic settings M r topic)) = .hooks (reg.listed topic) := by
  have hcollect : Registry.listHooksByTopic settings M r topic =
      .ok ((r (settings.getHookKey topic)).filterMap fun entry =>
        (M.modelValidateJson entry.2).toOption.map (entry.1, ·)) := by
    refine collect_eq_filterMap ?_
    rintro ⟨name, json⟩ hmem
    obtain ⟨params, hparams⟩ := h.stored topic _ hmem
    obtain rfl : json = M.modelDumpJson params := hparams
    simp [hload, Except.map, Except.toOption]
  rw [hcollect]
  simp only [Answer.ofHooks, Answer.hooks.injEq]
  funext name
  have hlookup := h.hooks topic name
  refine (lookup_filterMap_value (f := fun _ json =>
    (M.modelValidateJson json).toOption) ?_).trans ?_
  · intro json hjson
    rw [hlookup] at hjson
    obtain ⟨params, -, rfl⟩ := Option.map_eq_some_iff.mp hjson
    simp [hload, Except.toOption]
  · rw [hlookup]
    cases reg.listed topic name with
    | none => rfl
    | some params => simp [hload, Except.toOption]

include hload hdump in
/-- The Redis manager answers as the registry does. -/
theorem RedisShows.op (h : RedisShows settings M r reg) (op : Op η) :
    RedisShows settings M (redisOp settings M r op).1 (reg.op M op).1 ∧
      (redisOp settings M r op).2 = (reg.op M op).2 := by
  cases op with
  | register params =>
    simp only [redisOp, Filing.op]
    cases M.validateJqFields params with
    | error text => exact ⟨h, rfl⟩
    | ok u => exact ⟨h.register params, rfl⟩
  | unregister name =>
    obtain ⟨hshows, hremoved⟩ := h.unregister name
    exact ⟨hshows, congrArg Answer.flag hremoved⟩
  | listHooks => exact ⟨h, h.listHooks hload hdump⟩
  | listHooksByTopic topic => exact ⟨h, h.listHooksByTopic hload topic⟩

/-! ## What the in-memory manager shows -/

variable (settings) in
/-- The map has the topics, and the bucket of a topic its hooks. -/
structure MemoryShows (m : Memory η) (reg : Filing η) : Prop where
  topics : ∀ name, m.nameTopicMap.lookup name = (reg name).map Prod.fst
  hooks : ∀ topic name, ((m.hooks.lookup (settings.getHookKey topic)).getD []).lookup name =
    reg.listed topic name
  distinct : (m.hooks.map Prod.fst).Nodup
  keys : ∀ bucket ∈ m.hooks, ∃ topic, bucket.1 = settings.getHookKey topic

variable {m : Memory η}

theorem memoryShows_empty : MemoryShows settings ({} : Memory η) fun _ => none where
  topics _ := rfl
  hooks _ _ := rfl
  distinct := List.Pairwise.nil
  keys _ hmem := absurd hmem List.not_mem_nil

theorem lookup_unfile (hooks : List (String × List (String × η))) (key name k n : String) :
    (((Memory.unfile hooks key name).lookup k).getD []).lookup n =
      if k = key ∧ n = name then none else ((hooks.lookup k).getD []).lookup n := by
  unfold Memory.unfile
  cases hbucket : hooks.lookup key with
  | none =>
    split_ifs with h
    · rw [h.1, hbucket]
      rfl
    · rfl
  | some bucket =>
    by_cases hk : k = key
    · subst hk
      have hrest : (dictPop bucket name).lookup n =
          if n = name then none else bucket.lookup n := by
        rw [lookup_dictPop]
        simp
      simp only [true_and, hbucket, Option.getD_some, ← hrest]
      split_ifs with hempty
      · rw [lookup_dictPop, List.isEmpty_iff.mp hempty]
        simp
      · rw [lookup_dictPut]
        simp
    · simp only [hk, false_and, if_false]
      split_ifs with hempty
      · rw [lookup_dictPop]
        simp [hk]
      · rw [lookup_dictPut]
        simp [hk]

theorem unfile_keys {hooks : List (String × List (String × η))}
    (hdistinct : (hooks.map Prod.fst).Nodup)
    (hkeys : ∀ bucket ∈ hooks, ∃ topic, bucket.1 = settings.getHookKey topic)
    (topic name : String) :
    ((Memory.unfile hooks (settings.getHookKey topic) name).map Prod.fst).Nodup ∧
      ∀ bucket ∈ Memory.unfile hooks (settings.getHookKey topic) name,
        ∃ topic, bucket.1 = settings.getHookKey topic := by
  unfold Memory.unfile
  split
  · exact ⟨hdistinct, hkeys⟩
  · dsimp only
    split_ifs
    · exact ⟨nodup_dictPop hdistinct _, fun bucket hmem =>
        hkeys bucket (List.mem_filter.mp hmem).1⟩
    · refine ⟨nodup_dictPut hdistinct _ _, fun bucket hmem => ?_⟩
      rcases mem_dictPut hmem with hmem | rfl
      · exact hkeys bucket hmem
      · exact ⟨topic, rfl⟩

/-- The buckets of a register before the hook is filed. -/
theorem MemoryShows.register_eq (h : MemoryShows settings m reg) (params : η) :
    ∃ hooks, m.register settings M params =
        { hooks := dictPut hooks (settings.getHookKey (M.topic params))
            (dictPut ((hooks.lookup (settings.getHookKey (M.topic params))).getD [])
              (M.name params) params)
          nameTopicMap := dictPut m.nameTopicMap (M.name params) (M.topic params) } ∧
      (hooks.map Prod.fst).Nodup ∧
      (∀ bucket ∈ hooks, ∃ topic, bucket.1 = settings.getHookKey topic) ∧
      ∀ topic name, (name = M.name params → topic ≠ M.topic params) →
        ((hooks.lookup (settings.getHookKey topic)).getD []).lookup name =
          (reg.register M params).listed topic name := by
  have hothers : ∀ topic name, name ≠ M.name params →
      (reg.register M params).listed topic name = reg.listed topic name := by
    intro topic name hname
    simp [Filing.listed, Filing.register, hname]
  have hnone : ∀ topic, topic ≠ M.topic params →
      (reg.register M params).listed topic (M.name params) = none := by
    intro topic htopic
    refine Filing.listed_eq_none ?_
    simpa [Filing.register] using Ne.symm htopic
  refine ⟨_, rfl, ?_⟩
  rw [h.topics]
  -- The buckets stay as they are, unless the name has another topic.
  have hstay : (∀ prev, (reg (M.name params)).map Prod.fst = some prev → prev = M.topic params) →
      ∀ topic name, (name = M.name params → topic ≠ M.topic params) →
        ((m.hooks.lookup (settings.getHookKey topic)).getD []).lookup name =
          (reg.register M params).listed topic name := by
    intro hprev topic name hne
    rw [h.hooks]
    by_cases hname : name = M.name params
    · subst hname
      rw [hnone topic (hne rfl), Filing.listed_eq_none fun hlisted => hne rfl (hprev topic hlisted)]
    · rw [hothers topic name hname]
  cases hprev : (reg (M.name params)).map Prod.fst with
  | none => exact ⟨h.distinct, h.keys, hstay (by simp [hprev])⟩
  | some prev =>
    by_cases hmove : prev ≠ M.topic params
    · simp only [if_pos hmove]
      obtain ⟨hdistinct, hkeys⟩ := unfile_keys h.distinct h.keys prev (M.name params)
      refine ⟨hdistinct, hkeys, fun topic name hne => ?_⟩
      rw [lookup_unfile, h.hooks]
      simp only [getHookKey_inj]
      by_cases hname : name = M.name params
      · subst hname
        rw [hnone topic (hne rfl)]
        by_cases ht : topic = prev
        · simp [ht]
        · rw [if_neg fun hand => ht hand.1]
          refine Filing.listed_eq_none ?_
          rw [hprev]
          exact fun heq => ht (Option.some.inj heq).symm
      · rw [if_neg fun hand => hname hand.2, hothers topic name hname]
    · simp only [if_neg hmove]
      refine ⟨h.distinct, h.keys, hstay fun prev' heq => ?_⟩
      rw [hprev] at heq
      rw [← Option.some.inj heq]
      exact not_not.mp hmove

theorem MemoryShows.register (h : MemoryShows settings m reg) (params : η) :
    MemoryShows settings (m.register settings M params) (reg.register M params) := by
  obtain ⟨hooks, hregister, hdistinct, hkeys, hlookup⟩ := h.register_eq (M := M) params
  rw [hregister]
  refine ⟨?_, ?_, nodup_dictPut hdistinct _ _, ?_⟩
  · intro name
    rw [lookup_dictPut, h.topics]
    by_cases hname : name = M.name params
    · simp [hname, Filing.register]
    · simp [hname, Filing.register]
  · intro topic name
    rw [lookup_dictPut]
    by_cases htopic : topic = M.topic params
    · subst htopic
      simp only [beq_self_eq_true, if_true, Option.getD_some]
      rw [lookup_dictPut]
      by_cases hname : name = M.name params
      · simp [hname, Filing.listed, Filing.register]
      · rw [if_neg (by simpa using hname)]
        exact hlookup _ _ fun heq => absurd heq hname
    · have hkey : (settings.getHookKey topic == settings.getHookKey (M.topic params)) = false := by
        simpa using htopic
      simp only [hkey]
      exact hlookup topic name fun _ => htopic
  · intro bucket hmem
    rcases mem_dictPut hmem with hmem | rfl
    · exact hkeys bucket hmem
    · exact ⟨M.topic params, rfl⟩

/-- The in-memory manager unregisters a name from any topic but the empty one. -/
theorem MemoryShows.unregister (h : MemoryShows settings m reg) {name : String}
    (hblank : (reg name).map Prod.fst ≠ some "") :
    MemoryShows settings (m.unregister settings name).1 (reg.unregister name) ∧
      (m.unregister settings name).2 = (reg name).isSome := by
  have htopics : ∀ n, (dictPop m.nameTopicMap name).lookup n =
      (reg.unregister name n).map Prod.fst := by
    intro n
    rw [lookup_dictPop, h.topics]
    by_cases hn : n = name
    · simp [hn, Filing.unregister]
    · simp [hn, Filing.unregister]
  have hlisted : ∀ topic n, (reg.unregister name).listed topic n =
      if n = name then none else reg.listed topic n := by
    intro topic n
    by_cases hn : n = name
    · simp [hn, Filing.listed, Filing.unregister]
    · simp [hn, Filing.listed, Filing.unregister]
  unfold Memory.unregister
  rw [h.topics]
  cases hreg : reg name with
  | none =>
    simp only [Option.map_none]
    refine ⟨⟨htopics, fun topic n => ?_, h.distinct, h.keys⟩, rfl⟩
    rw [h.hooks, hlisted]
    split_ifs with hn
    · exact Filing.listed_eq_none (by simp [hn, hreg])
    · rfl
  | some entry =>
    have hbucket := h.hooks entry.1 name
    have hthere : reg.listed entry.1 name = some entry.2 := by simp [Filing.listed, hreg]
    rw [hthere] at hbucket
    have hne : entry.1 ≠ "" := fun heq => hblank (by rw [hreg, ← heq]; rfl)
    simp only [Option.map_some, if_neg hne]
    cases hlookup : m.hooks.lookup (settings.getHookKey entry.1) with
    | none =>
      rw [hlookup] at hbucket
      cases hbucket
    | some bucket =>
      rw [hlookup, Option.getD_some] at hbucket
      simp only [Option.bind_some, hbucket]
      obtain ⟨hdistinct, hkeys⟩ := unfile_keys h.distinct h.keys entry.1 name
      refine ⟨⟨htopics, fun topic n => ?_, hdistinct, hkeys⟩, rfl⟩
      rw [lookup_unfile, h.hooks, hlisted]
      simp only [getHookKey_inj]
      by_cases hn : n = name
      · subst hn
        by_cases ht : topic = entry.1
        · simp [ht]
        · rw [if_neg fun hand => ht hand.1, if_pos rfl]
          refine Filing.listed_eq_none ?_
          rw [hreg]
          exact fun heq => ht (Option.some.inj heq).symm
      · simp [hn]

/-- It takes a name on the empty topic for one that it does not have, and keeps its hook. -/
theorem MemoryShows.unregister_blank (h : MemoryShows settings m reg) {name : String}
    (hblank : (reg name).map Prod.fst = some "") :
    (m.unregister settings name).2 = false ∧
      (m.unregister settings name).1.hooks = m.hooks := by
  rw [← h.topics] at hblank
  unfold Memory.unregister
  rw [hblank]
  exact ⟨rfl, rfl⟩

theorem MemoryShows.listHooks (h : MemoryShows settings m reg) (name : String) :
    m.listHooks.lookup name = (reg name).map Prod.snd := by
  have hbucket : ∀ bucket ∈ m.hooks, ∃ topic, bucket.1 = settings.getHookKey topic ∧
      bucket.2.lookup name = reg.listed topic name := by
    intro bucket hmem
    obtain ⟨topic, htopic⟩ := h.keys bucket hmem
    refine ⟨topic, htopic, ?_⟩
    rw [← h.hooks, ← htopic, lookup_of_mem h.distinct hmem, Option.getD_some]
  unfold Memory.listHooks
  cases hreg : reg name with
  | none =>
    refine (lookup_foldl_updated_none (f := Prod.snd) fun bucket hmem => ?_).trans rfl
    obtain ⟨topic, -, hlookup⟩ := hbucket bucket hmem
    rw [hlookup]
    exact Filing.listed_eq_none (by simp [hreg])
  | some entry =>
    refine lookup_foldl_updated (f := Prod.snd) (fun bucket hmem value hvalue => ?_) (.inr ?_)
    · obtain ⟨topic, -, hlookup⟩ := hbucket bucket hmem
      rw [hlookup] at hvalue
      simp only [Filing.listed, hreg, Option.bind_some] at hvalue
      split_ifs at hvalue
      exact (Option.some.inj hvalue).symm
    · have hthere := h.hooks entry.1 name
      have hlisted : reg.listed entry.1 name = some entry.2 := by simp [Filing.listed, hreg]
      rw [hlisted] at hthere
      cases hlookup : m.hooks.lookup (settings.getHookKey entry.1) with
      | none =>
        rw [hlookup] at hthere
        cases hthere
      | some bucket =>
        rw [hlookup, Option.getD_some] at hthere
        exact ⟨_, mem_of_lookup hlookup, hthere⟩

/-- A call that unregisters no name from the empty topic. -/
def Filing.unblank (reg : Filing η) : Op η → Bool
  | .unregister name => (reg name).map Prod.fst != some ""
  | _ => true

/-- The in-memory manager answers as the registry does. -/
theorem MemoryShows.op (h : MemoryShows settings m reg) {op : Op η}
    (hblank : reg.unblank op = true) :
    MemoryShows settings (memoryOp settings M m op).1 (reg.op M op).1 ∧
      (memoryOp settings M m op).2 = (reg.op M op).2 := by
  cases op with
  | register params =>
    simp only [memoryOp, Filing.op]
    cases M.validateJqFields params with
    | error text => exact ⟨h, rfl⟩
    | ok u => exact ⟨h.register params, rfl⟩
  | unregister name =>
    obtain ⟨hshows, hremoved⟩ := h.unregister (by simpa [Filing.unblank] using hblank)
    exact ⟨hshows, congrArg Answer.flag hremoved⟩
  | listHooks =>
    refine ⟨h, ?_⟩
    simp only [memoryOp, Filing.op, Answer.ofHooks, Answer.hooks.injEq]
    funext name
    exact h.listHooks name
  | listHooksByTopic topic =>
    refine ⟨h, ?_⟩
    simp only [memoryOp, Filing.op, Answer.ofHooks, Answer.hooks.injEq]
    funext name
    exact h.hooks topic name

end TaiSkeleton.Hooks.Registry
