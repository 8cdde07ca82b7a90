import TaiSkeleton.Operations.ToolRuns

/-!
# Isolation between the identities of the tool runs

What a restricted caller reads of the tool runs is a function of its own runs, as long as no run of
another identity is indexed under one of its keys, and it asks for no run of another identity by its
id.
-/

namespace TaiSkeleton.ToolRuns

open Lib

variable {settings : Settings} {submitter : Submitter} {u : Text} {s s' : Store} {event : Event}

/-- The run of another identity, or of none. -/
def foreign (submitter : Submitter) (u runId : Text) : Bool :=
  match submitter runId with
  | none => false
  | some owner => owner ≠ some u

/-- The events that are not of the runs of others. -/
def visible (submitter : Submitter) (u : Text) : Event → Bool
  | .submit runId .. | .finish runId _ | .refresh runId => !foreign submitter u runId
  | .tick _ | .list .. | .get .. => true

/-- A read of the run of another identity by its id. -/
def asksForeign (submitter : Submitter) (u : Text) : Event → Bool
  | .get runId _ => foreign submitter u runId
  | _ => false

/-- A submitted run has a submitter; if it is the run of another, no key that it is indexed under is
a key of the caller. -/
def KeepsOff (submitter : Submitter) (u : Text) : Event → Prop
  | .submit runId toolName _ _ => submitter runId ≠ none ∧
    (foreign submitter u runId = true → ∀ name,
      recentKey toolName none ≠ recentKey name (some u) ∧
      ∀ v, submitter runId = some (some v) →
        recentKey toolName (some v) ≠ recentKey name (some u))
  | _ => True

/-- The replies that the caller gets, without those about the runs of others by their ids. -/
def observed (settings : Settings) (submitter : Submitter) (u : Text) (events : List Event)
    (s : Store) : List (Event × Reply) :=
  (replies settings submitter u events s).filter fun reply => !asksForeign submitter u reply.1

/-- The reply shows runs of the caller only. -/
def Reply.OwnedBy (submitter : Submitter) (u : Text) : Reply → Prop
  | .listed views => ∀ view ∈ views, submitter view.runId = some (some u)
  | .got view => submitter view.runId = some (some u)
  | .forbidden | .notFound => True

theorem foreign_eq_false {runId : Text} (h : submitter runId = some (some u)) :
    foreign submitter u runId = false := by
  simp [foreign, h]

theorem submitter_of_not_foreign {runId : Text} (h : foreign submitter u runId = false)
    (hsubmitted : submitter runId ≠ none) : submitter runId = some (some u) := by
  unfold foreign at h
  cases hs : submitter runId with
  | none => exact absurd hs hsubmitted
  | some owner => simpa [hs] using h

/-! ## Ownership -/

/-- Each record names the submitter of its run, and the indexes of the caller hold its runs. -/
structure Owned (submitter : Submitter) (u : Text) (s : Store) : Prop where
  runs : ∀ runId entry, s.runs runId = some entry → submitter runId = some entry.value.userId
  recent : ∀ name entry, s.recent (recentKey name (some u)) = some entry →
    ∀ member ∈ entry.value.entries, submitter member.1 = some (some u)

namespace Owned

theorem run (h : Owned submitter u s) {runId : Text} {record : Record}
    (hrun : s.run runId = some record) : submitter runId = some record.userId := by
  obtain ⟨entry, hentry, -, rfl⟩ := Expiring.read_eq_some.mp hrun
  exact h.runs runId entry hentry

theorem index (h : Owned submitter u s) (name : Text) :
    ∀ member ∈ ((Expiring.read s.now (s.recent (recentKey name (some u)))).getD .empty).entries,
      submitter member.1 = some (some u) := by
  intro member hmember
  cases hread : Expiring.read s.now (s.recent (recentKey name (some u))) with
  | none =>
    rw [hread] at hmember
    cases hmember
  | some index =>
    rw [hread] at hmember
    obtain ⟨entry, hentry, -, rfl⟩ := Expiring.read_eq_some.mp hread
    exact h.recent name entry hentry member hmember

theorem push (h : Owned submitter u s) {key runId : Text} {score : ℤ}
    (hkey : ∀ name, key = recentKey name (some u) → submitter runId = some (some u)) :
    Owned submitter u (s.push settings key runId score) where
  runs := h.runs
  recent name entry hentry member hmember := by
    by_cases hname : recentKey name (some u) = key
    · subst hname
      simp only [Store.push, Function.update_self, Option.some.injEq] at hentry
      subst hentry
      have hadded := (List.mem_filter.mp hmember).1
      obtain rfl | hold := List.mem_cons.mp hadded
      · exact hkey name rfl
      · exact h.index name member (List.mem_filter.mp hold).1
    · simp only [Store.push, Function.update_of_ne hname] at hentry
      exact h.recent name entry hentry member hmember

theorem setRun (h : Owned submitter u s) {runId : Text} {entry : Expiring Record}
    (howner : submitter runId = some entry.value.userId) (live : Text → Option (Expiring Unit)) :
    Owned submitter u
      { s with runs := Function.update s.runs runId (some entry), live := live } where
  runs id entry' hentry := by
    by_cases hid : id = runId
    · subst hid
      simp only [Function.update_self, Option.some.injEq] at hentry
      subst hentry
      exact howner
    · simp only [Function.update_of_ne hid] at hentry
      exact h.runs id entry' hentry
  recent := h.recent

theorem mark (h : Owned submitter u s) {runId : Text} {fields : Fields} {s' : Store}
    (hmark : s.markTerminalIfRunning settings runId fields = some s') :
    Owned submitter u s' := by
  unfold Store.markTerminalIfRunning at hmark
  split at hmark
  · cases hmark
  · next record hrecord =>
    split_ifs at hmark
    obtain rfl := Option.some.inj hmark
    have howner : submitter runId = some record.userId := h.run hrecord
    have hwritten : submitter runId = some (⟨record.write fields,
        s.now + settings.resultTtl⟩ : Expiring Record).value.userId := howner
    exact h.setRun hwritten s.live

theorem reconcileLost (h : Owned submitter u s) {runId : Text} {record : Record} {live : Bool}
    {clock : ℤ} :
    Owned submitter u (s.reconcileLost settings runId record live clock).1 := by
  unfold Store.reconcileLost
  split_ifs
  · exact h
  · split
    · next hmark => exact h.mark hmark
    · exact h

theorem prune (h : Owned submitter u s) {toolName runId : Text} {user : Option Text} :
    Owned submitter u (s.pruneRecent toolName runId user) where
  runs := h.runs
  recent name entry hentry member hmember := by
    by_cases hname : recentKey name (some u) = recentKey toolName user
    · simp only [Store.pruneRecent, hname, Function.update_self] at hentry
      obtain ⟨old, hold, rfl⟩ := Option.map_eq_some_iff.mp hentry
      exact h.recent name old (hname ▸ hold) member (List.mem_filter.mp hmember).1
    · simp only [Store.pruneRecent, Function.update_of_ne hname] at hentry
      exact h.recent name entry hentry member hmember

theorem createRun (h : Owned submitter u s) {runId toolName : Text} {startedAt score : ℤ}
    (hkeeps : KeepsOff submitter u (.submit runId toolName startedAt score)) :
    Owned submitter u (s.createRun settings runId toolName startedAt score
      (submitter runId).join) := by
  obtain ⟨hsubmitted, hforeign⟩ := hkeeps
  obtain ⟨owner, howner⟩ := Option.ne_none_iff_exists'.mp hsubmitted
  have hmine : ∀ key, (foreign submitter u runId = true → ∀ name, key ≠ recentKey name (some u)) →
      ∀ name, key = recentKey name (some u) → submitter runId = some (some u) := by
    intro key hkey name hname
    cases hf : foreign submitter u runId with
    | false => exact submitter_of_not_foreign hf hsubmitted
    | true => exact absurd hname (hkey hf name)
  have hrecord : Owned submitter u { s with
      runs := Function.update s.runs runId
        (some ⟨{ toolName, status := .running, startedAt, userId := owner },
          s.now + settings.resultTtl⟩)
      live := Function.update s.live runId (some ⟨(), s.now + settings.livenessTtl⟩) } :=
    h.setRun howner _
  have hshared : Owned submitter u (Store.push settings _ (recentKey toolName none) runId score) :=
    hrecord.push (hmine (recentKey toolName none) fun hf name => (hforeign hf name).1)
  rw [howner]
  cases owner with
  | none => exact hshared
  | some v =>
    exact hshared.push (hmine _ fun hf name => (hforeign hf name).2 v howner)

theorem collect (h : Owned submitter u s) {toolName : Text} {user : Option Text}
    (runIds : List Text) : Owned submitter u (collect toolName user runIds s).1 := by
  induction runIds generalizing s with
  | nil => exact h
  | cons runId runIds ih =>
    unfold ToolRuns.collect
    cases s.run runId with
    | none => exact ih h.prune
    | some record => exact ih h

theorem reconcileAll (h : Owned submitter u s) {clock : ℤ}
    (present : List (Text × Record × Bool)) :
    Owned submitter u (reconcileAll settings clock present s).1 := by
  induction present generalizing s with
  | nil => exact h
  | cons run present ih => exact ih h.reconcileLost

theorem getRun (h : Owned submitter u s) {runId : Text} {user : Option Text} {clock : ℤ} :
    Owned submitter u (getRun settings s runId user clock).1 := by
  unfold ToolRuns.getRun
  cases s.run runId with
  | none => exact h
  | some record =>
    dsimp only
    split_ifs
    · exact h
    · exact h.reconcileLost

/-- What the indexes and the records say of their owners, every event keeps. -/
theorem step (h : Owned submitter u s) (hkeeps : KeepsOff submitter u event) :
    Owned submitter u (step settings submitter u s event).1 := by
  cases event with
  | tick seconds => exact ⟨h.runs, h.recent⟩
  | submit runId toolName startedAt score => exact h.createRun hkeeps
  | finish runId fields =>
    show Owned submitter u ((s.markTerminalIfRunning settings runId fields).getD s)
    cases hmark : s.markTerminalIfRunning settings runId fields with
    | none => exact h
    | some s' => exact h.mark hmark
  | refresh runId => exact ⟨h.runs, h.recent⟩
  | list toolName clock => exact (h.collect _).reconcileAll _
  | get runId clock => exact h.getRun

end Owned

/-! ## What the caller sees of the store -/

/-- Two stores that the caller cannot tell apart. -/
structure Alike (submitter : Submitter) (u : Text) (s s' : Store) : Prop where
  now : s.now = s'.now
  runs : ∀ runId, foreign submitter u runId = false → s.runs runId = s'.runs runId
  live : ∀ runId, foreign submitter u runId = false → s.live runId = s'.live runId
  recent : ∀ name, s.recent (recentKey name (some u)) = s'.recent (recentKey name (some u))

namespace Alike

theorem run (h : Alike submitter u s s') {runId : Text}
    (hmine : foreign submitter u runId = false) : s.run runId = s'.run runId := by
  unfold Store.run
  rw [h.now, h.runs runId hmine]

theorem livenessPresent (h : Alike submitter u s s') {runId : Text}
    (hmine : foreign submitter u runId = false) :
    s.livenessPresent runId = s'.livenessPresent runId := by
  unfold Store.livenessPresent
  rw [h.now, h.live runId hmine]

theorem push (h : Alike submitter u s s') (key runId : Text) (score : ℤ) :
    Alike submitter u (s.push settings key runId score) (s'.push settings key runId score) where
  now := h.now
  runs := h.runs
  live := h.live
  recent name := by
    by_cases hname : recentKey name (some u) = key
    · subst hname
      simp only [Store.push, Function.update_self, h.recent name, h.now]
    · simp only [Store.push, Function.update_of_ne hname]
      exact h.recent name

/-- An index that is no index of the caller. -/
theorem push_left (h : Alike submitter u s s') {key : Text} (runId : Text) (score : ℤ)
    (hkey : ∀ name, key ≠ recentKey name (some u)) :
    Alike submitter u (s.push settings key runId score) s' where
  now := h.now
  runs := h.runs
  live := h.live
  recent name := by
    simp only [Store.push, Function.update_of_ne (hkey name).symm]
    exact h.recent name

theorem setRun (h : Alike submitter u s s') (runId : Text) {entry entry' : Expiring Record}
    (hentry : entry = entry') {live live' : Option (Expiring Unit)} (hlive : live = live') :
    Alike submitter u
      { s with
        runs := Function.update s.runs runId (some entry)
        live := Function.update s.live runId live }
      { s' with
        runs := Function.update s'.runs runId (some entry')
        live := Function.update s'.live runId live' } where
  now := h.now
  runs id hid := by
    by_cases heq : id = runId
    · subst heq
      simp [hentry]
    · simp only [Function.update_of_ne heq]
      exact h.runs id hid
  live id hid := by
    by_cases heq : id = runId
    · subst heq
      simp [hlive]
    · simp only [Function.update_of_ne heq]
      exact h.live id hid
  recent := h.recent

theorem setRun_left (h : Alike submitter u s s') {runId : Text}
    (hforeign : foreign submitter u runId = true) (entry : Expiring Record)
    (live : Option (Expiring Unit)) :
    Alike submitter u
      { s with
        runs := Function.update s.runs runId (some entry)
        live := Function.update s.live runId live } s' where
  now := h.now
  runs id hid := by
    have hne : id ≠ runId := by
      rintro rfl
      rw [hforeign] at hid
      cases hid
    simp only [Function.update_of_ne hne]
    exact h.runs id hid
  live id hid := by
    have hne : id ≠ runId := by
      rintro rfl
      rw [hforeign] at hid
      cases hid
    simp only [Function.update_of_ne hne]
    exact h.live id hid
  recent := h.recent

theorem createRun (h : Alike submitter u s s') (runId toolName : Text) (startedAt score : ℤ)
    (user : Option Text) :
    Alike submitter u (s.createRun settings runId toolName startedAt score user)
      (s'.createRun settings runId toolName startedAt score user) := by
  let record : Record := { toolName, status := .running, startedAt, userId := user }
  have hentry : (⟨record, s.now + settings.resultTtl⟩ : Expiring Record) =
      ⟨record, s'.now + settings.resultTtl⟩ := by rw [h.now]
  have hlive : some (⟨(), s.now + settings.livenessTtl⟩ : Expiring Unit) =
      some ⟨(), s'.now + settings.livenessTtl⟩ := by rw [h.now]
  have hrecord := h.setRun runId hentry hlive
  unfold Store.createRun
  cases user with
  | none => exact hrecord.push _ _ _
  | some v => exact (hrecord.push _ _ _).push _ _ _

theorem createRun_left (h : Alike submitter u s s') {runId toolName : Text} {startedAt score : ℤ}
    (hkeeps : KeepsOff submitter u (.submit runId toolName startedAt score))
    (hforeign : foreign submitter u runId = true) :
    Alike submitter u (s.createRun settings runId toolName startedAt score
      (submitter runId).join) s' := by
  obtain ⟨hsubmitted, hkeys⟩ := hkeeps
  obtain ⟨owner, howner⟩ := Option.ne_none_iff_exists'.mp hsubmitted
  have hrecord := h.setRun_left hforeign
    ⟨{ toolName, status := .running, startedAt, userId := owner }, s.now + settings.resultTtl⟩
    (some ⟨(), s.now + settings.livenessTtl⟩)
  rw [howner]
  cases owner with
  | none => exact hrecord.push_left _ _ fun name => (hkeys hforeign name).1
  | some v =>
    exact (hrecord.push_left _ _ fun name => (hkeys hforeign name).1).push_left _ _
      fun name => (hkeys hforeign name).2 v howner

/-- A terminal write on a run that is not of another writes on both sides or on neither. -/
theorem mark (h : Alike submitter u s s') (settings : Settings) {runId : Text}
    (hmine : foreign submitter u runId = false) (fields : Fields) :
    (s.markTerminalIfRunning settings runId fields = none ∧
      s'.markTerminalIfRunning settings runId fields = none) ∨
    ∃ t t', s.markTerminalIfRunning settings runId fields = some t ∧
      s'.markTerminalIfRunning settings runId fields = some t' ∧ Alike submitter u t t' := by
  unfold Store.markTerminalIfRunning
  rw [← h.run hmine]
  cases s.run runId with
  | none => exact .inl ⟨rfl, rfl⟩
  | some record =>
    dsimp only
    split_ifs
    · refine .inr ⟨_, _, rfl, rfl, h.now, fun id hid => ?_, h.live, h.recent⟩
      by_cases heq : id = runId
      · subst heq
        simp [h.now]
      · simp only [Function.update_of_ne heq]
        exact h.runs id hid
    · exact .inl ⟨rfl, rfl⟩

theorem mark_left (h : Alike submitter u s s') {runId : Text}
    (hforeign : foreign submitter u runId = true) (fields : Fields) :
    Alike submitter u ((s.markTerminalIfRunning settings runId fields).getD s) s' := by
  unfold Store.markTerminalIfRunning
  cases s.run runId with
  | none => exact h
  | some record =>
    dsimp only
    split_ifs
    · refine ⟨h.now, fun id hid => ?_, h.live, h.recent⟩
      have hne : id ≠ runId := by
        rintro rfl
        rw [hforeign] at hid
        cases hid
      simp only [Option.getD_some, Function.update_of_ne hne]
      exact h.runs id hid
    · exact h

theorem reconcileLost (h : Alike submitter u s s') {runId : Text}
    (hmine : foreign submitter u runId = false) (record : Record) (live : Bool) (clock : ℤ) :
    Alike submitter u (s.reconcileLost settings runId record live clock).1
        (s'.reconcileLost settings runId record live clock).1 ∧
      (s.reconcileLost settings runId record live clock).2 =
        (s'.reconcileLost settings runId record live clock).2 := by
  unfold Store.reconcileLost
  split_ifs
  · exact ⟨h, rfl⟩
  · obtain ⟨hnone, hnone'⟩ | ⟨t, t', ht, ht', halike⟩ :=
      h.mark settings hmine { status := .lost, finishedAt := clock }
    · rw [hnone, hnone']
      exact ⟨h, by rw [h.run hmine]⟩
    · rw [ht, ht']
      exact ⟨halike, rfl⟩

theorem prune (h : Alike submitter u s s') (toolName runId : Text) :
    Alike submitter u (s.pruneRecent toolName runId (some u))
      (s'.pruneRecent toolName runId (some u)) where
  now := h.now
  runs := h.runs
  live := h.live
  recent name := by
    by_cases hname : recentKey name (some u) = recentKey toolName (some u)
    · simp only [Store.pruneRecent, hname, Function.update_self, h.recent toolName]
    · simp only [Store.pruneRecent, Function.update_of_ne hname]
      exact h.recent name

theorem collect (h : Alike submitter u s s') {toolName : Text} {runIds : List Text}
    (hmine : ∀ runId ∈ runIds, foreign submitter u runId = false) :
    Alike submitter u (collect toolName (some u) runIds s).1
        (collect toolName (some u) runIds s').1 ∧
      (collect toolName (some u) runIds s).2 = (collect toolName (some u) runIds s').2 := by
  induction runIds generalizing s s' with
  | nil => exact ⟨h, rfl⟩
  | cons runId runIds ih =>
    have hrest : ∀ id ∈ runIds, foreign submitter u id = false := fun id hid =>
      hmine id (List.mem_cons_of_mem _ hid)
    unfold ToolRuns.collect
    rw [← h.run (hmine runId List.mem_cons_self)]
    cases s.run runId with
    | none => exact ih (h.prune toolName runId) hrest
    | some record =>
      obtain ⟨halike, heq⟩ := ih h hrest
      exact ⟨halike, by simp only [heq]⟩

theorem reconcileAll (h : Alike submitter u s s') {clock : ℤ}
    {present : List (Text × Record × Bool)}
    (hmine : ∀ run ∈ present, foreign submitter u run.1 = false) :
    Alike submitter u (reconcileAll settings clock present s).1
        (reconcileAll settings clock present s').1 ∧
      (reconcileAll settings clock present s).2 = (reconcileAll settings clock present s').2 := by
  induction present generalizing s s' with
  | nil => exact ⟨h, rfl⟩
  | cons run present ih =>
    obtain ⟨runId, record, live⟩ := run
    obtain ⟨halike, hrecord⟩ : Alike submitter u
        (s.reconcileLost settings runId record live clock).1
        (s'.reconcileLost settings runId record live clock).1 ∧ _ :=
      h.reconcileLost (hmine _ List.mem_cons_self) record live clock
    obtain ⟨hrest, hviews⟩ := ih halike fun run hrun => hmine run (List.mem_cons_of_mem _ hrun)
    refine ⟨hrest, ?_⟩
    show listView runId _ :: _ = listView runId _ :: _
    rw [hrecord, hviews]

end Alike

/-! ## Replies -/

theorem Owned.recentRunIds (h : Owned submitter u s) {name runId : Text}
    (hmem : runId ∈ s.recentRunIds settings name (some u)) : submitter runId = some (some u) := by
  unfold Store.recentRunIds newest SortedSet.range at hmem
  obtain ⟨entry, hentry, rfl⟩ :=
    List.mem_map.mp (List.mem_reverse.mp (List.mem_of_mem_take hmem))
  exact h.index name entry ((List.mem_insertionSort _).mp hentry)

theorem mem_collect {name : Text} {user : Option Text} {runIds : List Text}
    {run : Text × Record} (h : run ∈ (collect name user runIds s).2) : run.1 ∈ runIds := by
  induction runIds generalizing s with
  | nil => cases h
  | cons runId runIds ih =>
    unfold collect at h
    cases hrun : s.run runId with
    | none =>
      rw [hrun] at h
      exact List.mem_cons_of_mem _ (ih h)
    | some record =>
      rw [hrun] at h
      obtain rfl | h := List.mem_cons.mp h
      · exact List.mem_cons_self
      · exact List.mem_cons_of_mem _ (ih h)

theorem mem_reconcileAll {clock : ℤ} {present : List (Text × Record × Bool)} {view : ListView}
    (h : view ∈ (reconcileAll settings clock present s).2) :
    ∃ run ∈ present, view.runId = run.1 := by
  induction present generalizing s with
  | nil => cases h
  | cons run present ih =>
    obtain ⟨runId, record, live⟩ := run
    obtain rfl | h := List.mem_cons.mp h
    · exact ⟨_, List.mem_cons_self, rfl⟩
    · obtain ⟨run', hrun', hid⟩ := ih h
      exact ⟨run', List.mem_cons_of_mem _ hrun', hid⟩

theorem Owned.listed (h : Owned submitter u s) {name : Text} {clock : ℤ} :
    (listToolRuns settings s name (some u) clock).2.OwnedBy submitter u := by
  intro view hview
  obtain ⟨run, hrun, hid⟩ := mem_reconcileAll hview
  obtain ⟨found, hfound, rfl⟩ := List.mem_map.mp hrun
  rw [hid]
  exact h.recentRunIds (mem_collect hfound)

theorem Owned.got (h : Owned submitter u s) {runId : Text} {clock : ℤ} :
    (ToolRuns.getRun settings s runId (some u) clock).2.OwnedBy submitter u := by
  unfold ToolRuns.getRun
  cases hrun : s.run runId with
  | none => trivial
  | some record =>
    dsimp only
    split_ifs with hother
    · trivial
    · have huser : record.userId = some u := by
        by_contra hne
        exact hother ⟨nofun, hne⟩
      show submitter runId = some (some u)
      rw [h.run hrun, huser]

theorem Owned.reply (h : Owned submitter u s) {reply : Reply}
    (hreply : (ToolRuns.step settings submitter u s event).2 = some reply) :
    reply.OwnedBy submitter u := by
  cases event with
  | tick _ => cases hreply
  | submit _ _ _ _ => cases hreply
  | finish _ _ => cases hreply
  | refresh _ => cases hreply
  | list toolName clock =>
    obtain rfl := Option.some.inj hreply
    exact h.listed
  | get runId clock =>
    obtain rfl := Option.some.inj hreply
    exact h.got

/-- Each reply of a history shows runs of the caller only. -/
theorem replies_owned {events : List Event} (h : Owned submitter u s)
    (hkeeps : ∀ event ∈ events, KeepsOff submitter u event) :
    ∀ reply ∈ replies settings submitter u events s, reply.2.OwnedBy submitter u := by
  induction events generalizing s with
  | nil => exact fun reply hreply => nomatch hreply
  | cons event events ih =>
    intro reply hreply
    obtain hreply | hreply := List.mem_append.mp hreply
    · obtain ⟨given, hgiven, rfl⟩ := List.mem_map.mp hreply
      exact h.reply (Option.mem_toList.mp hgiven)
    · exact ih (h.step (hkeeps event List.mem_cons_self))
        (fun event hevent => hkeeps event (List.mem_cons_of_mem _ hevent)) reply hreply

namespace Alike

theorem withLiveness (h : Alike submitter u s s') {found : List (Text × Record)}
    (hmine : ∀ run ∈ found, foreign submitter u run.1 = false) :
    withLiveness s found = withLiveness s' found := by
  unfold ToolRuns.withLiveness
  refine List.map_congr_left fun run hrun => ?_
  rw [h.livenessPresent (hmine run hrun)]

theorem listToolRuns (h : Alike submitter u s s') (settings : Settings)
    (howned : Owned submitter u s) (name : Text)
    (clock : ℤ) :
    Alike submitter u (listToolRuns settings s name (some u) clock).1
        (listToolRuns settings s' name (some u) clock).1 ∧
      (listToolRuns settings s name (some u) clock).2 =
        (listToolRuns settings s' name (some u) clock).2 := by
  have hids : s.recentRunIds settings name (some u) = s'.recentRunIds settings name (some u) := by
    unfold Store.recentRunIds
    rw [h.now, h.recent name]
  have hmine : ∀ id ∈ s.recentRunIds settings name (some u), foreign submitter u id = false :=
    fun id hid => foreign_eq_false (howned.recentRunIds hid)
  obtain ⟨hcollected, hfound⟩ :
      Alike submitter u (ToolRuns.collect name (some u) _ s).1
        (ToolRuns.collect name (some u) _ s').1 ∧ _ := h.collect hmine
  have hruns : ∀ run ∈ (ToolRuns.collect name (some u) (s.recentRunIds settings name (some u))
      s).2, foreign submitter u run.1 = false := fun run hrun => hmine _ (mem_collect hrun)
  have hpresent := hcollected.withLiveness hruns
  have hpresentMine : ∀ run ∈ ToolRuns.withLiveness
      (ToolRuns.collect name (some u) (s.recentRunIds settings name (some u)) s).1
      (ToolRuns.collect name (some u) (s.recentRunIds settings name (some u)) s).2,
      foreign submitter u run.1 = false := by
    intro run hrun
    obtain ⟨found, hfound, rfl⟩ := List.mem_map.mp hrun
    exact hruns found hfound
  unfold ToolRuns.listToolRuns
  dsimp only
  rw [← hids, ← hfound, ← hpresent]
  obtain ⟨halike, hviews⟩ : Alike submitter u (ToolRuns.reconcileAll settings clock _ _).1
      (ToolRuns.reconcileAll settings clock _ _).1 ∧ _ := hcollected.reconcileAll hpresentMine
  exact ⟨halike, by rw [hviews]⟩

theorem getRun (h : Alike submitter u s s') (settings : Settings) {runId : Text}
    (hmine : foreign submitter u runId = false) (clock : ℤ) :
    Alike submitter u (getRun settings s runId (some u) clock).1
        (getRun settings s' runId (some u) clock).1 ∧
      (getRun settings s runId (some u) clock).2 =
        (getRun settings s' runId (some u) clock).2 := by
  unfold ToolRuns.getRun
  rw [← h.run hmine]
  cases s.run runId with
  | none => exact ⟨h, rfl⟩
  | some record =>
    dsimp only
    split_ifs
    · exact ⟨h, rfl⟩
    · rw [← h.livenessPresent hmine]
      obtain ⟨halike, hrecord⟩ : Alike submitter u (s.reconcileLost settings runId record _ clock).1
          (s'.reconcileLost settings runId record _ clock).1 ∧ _ :=
        h.reconcileLost hmine record (record.status = .running && s.livenessPresent runId) clock
      exact ⟨halike, by rw [hrecord]⟩

/-- The run of another is not read, only denied. -/
theorem getRun_foreign (howned : Owned submitter u s) {runId : Text}
    (hforeign : foreign submitter u runId = true) (clock : ℤ) :
    (ToolRuns.getRun settings s runId (some u) clock).1 = s := by
  unfold ToolRuns.getRun
  cases hrun : s.run runId with
  | none => rfl
  | some record =>
    have hother : record.userId ≠ some u := by
      intro huser
      have hid := howned.run hrun
      rw [huser] at hid
      rw [foreign_eq_false hid] at hforeign
      cases hforeign
    dsimp only
    rw [if_pos ⟨nofun, hother⟩]

/-- An event of the runs of others leaves what the caller sees, and has no reply. -/
theorem step_left (h : Alike submitter u s s') (hkeeps : KeepsOff submitter u event)
    (hvisible : visible submitter u event = false) :
    Alike submitter u (ToolRuns.step settings submitter u s event).1 s' ∧
      (ToolRuns.step settings submitter u s event).2 = none := by
  cases event with
  | tick seconds => cases hvisible
  | submit runId toolName startedAt score =>
    exact ⟨h.createRun_left hkeeps (by simpa [visible] using hvisible), rfl⟩
  | finish runId fields => exact ⟨h.mark_left (by simpa [visible] using hvisible) fields, rfl⟩
  | refresh runId =>
    have hforeign : foreign submitter u runId = true := by simpa [visible] using hvisible
    refine ⟨⟨h.now, h.runs, fun id hid => ?_, h.recent⟩, rfl⟩
    have hne : id ≠ runId := by
      rintro rfl
      rw [hforeign] at hid
      cases hid
    simp only [ToolRuns.step, Store.refreshLiveness, Function.update_of_ne hne]
    exact h.live id hid
  | list toolName clock => cases hvisible
  | get runId clock => cases hvisible

/-- Any other event has the same effect and the same reply, unless it asks for the run of
another. -/
theorem step (h : Alike submitter u s s') (howned : Owned submitter u s)
    (howned' : Owned submitter u s') (hvisible : visible submitter u event = true) :
    Alike submitter u (ToolRuns.step settings submitter u s event).1
        (ToolRuns.step settings submitter u s' event).1 ∧
      (asksForeign submitter u event = false →
        (ToolRuns.step settings submitter u s event).2 =
          (ToolRuns.step settings submitter u s' event).2) := by
  cases event with
  | tick seconds =>
    refine ⟨⟨?_, h.runs, h.live, h.recent⟩, fun _ => rfl⟩
    show s.now + seconds = s'.now + seconds
    rw [h.now]
  | submit runId toolName startedAt score =>
    exact ⟨h.createRun runId toolName startedAt score _, fun _ => rfl⟩
  | finish runId fields =>
    have hmine : foreign submitter u runId = false := by simpa [visible] using hvisible
    refine ⟨?_, fun _ => rfl⟩
    show Alike submitter u ((s.markTerminalIfRunning settings runId fields).getD s)
      ((s'.markTerminalIfRunning settings runId fields).getD s')
    obtain ⟨hnone, hnone'⟩ | ⟨t, t', ht, ht', halike⟩ := h.mark settings hmine fields
    · rw [hnone, hnone']
      exact h
    · rw [ht, ht']
      exact halike
  | refresh runId =>
    refine ⟨⟨h.now, h.runs, fun id hid => ?_, h.recent⟩, fun _ => rfl⟩
    by_cases heq : id = runId
    · subst heq
      simp [ToolRuns.step, Store.refreshLiveness, h.now]
    · simp only [ToolRuns.step, Store.refreshLiveness, Function.update_of_ne heq]
      exact h.live id hid
  | list toolName clock =>
    obtain ⟨halike, hreply⟩ := h.listToolRuns settings howned toolName clock
    exact ⟨halike, fun _ => congrArg some hreply⟩
  | get runId clock =>
    cases hforeign : foreign submitter u runId with
    | false =>
      obtain ⟨halike, hreply⟩ := h.getRun settings hforeign clock
      exact ⟨halike, fun _ => congrArg some hreply⟩
    | true =>
      refine ⟨?_, fun hask => ?_⟩
      · show Alike submitter u (ToolRuns.getRun settings s runId (some u) clock).1
          (ToolRuns.getRun settings s' runId (some u) clock).1
        rw [getRun_foreign howned hforeign, getRun_foreign howned' hforeign]
        exact h
      · rw [asksForeign, hforeign] at hask
        cases hask

end Alike

/-! ## Two histories -/

theorem observed_cons (event : Event) (events : List Event) (s : Store) :
    observed settings submitter u (event :: events) s =
      (if asksForeign submitter u event then []
        else (step settings submitter u s event).2.toList.map fun reply => (event, reply)) ++
      observed settings submitter u events (step settings submitter u s event).1 := by
  unfold observed
  rw [replies, List.filter_append]
  congr 1
  split_ifs with hasks
  · refine List.filter_eq_nil_iff.mpr fun reply hreply => ?_
    obtain ⟨_, _, rfl⟩ := List.mem_map.mp hreply
    simp [hasks]
  · refine List.filter_eq_self.mpr fun reply hreply => ?_
    obtain ⟨_, _, rfl⟩ := List.mem_map.mp hreply
    simp [hasks]

/-- The caller observes what it would if the others had submitted no runs. -/
theorem observed_filter {events : List Event} (h : Alike submitter u s s')
    (howned : Owned submitter u s) (howned' : Owned submitter u s')
    (hkeeps : ∀ event ∈ events, KeepsOff submitter u event) :
    observed settings submitter u events s =
      observed settings submitter u (events.filter (visible submitter u)) s' := by
  induction events generalizing s s' with
  | nil => rfl
  | cons event events ih =>
    have hevent := hkeeps event List.mem_cons_self
    have hrest : ∀ event ∈ events, KeepsOff submitter u event := fun event hmem =>
      hkeeps event (List.mem_cons_of_mem _ hmem)
    cases hvisible : visible submitter u event with
    | false =>
      obtain ⟨halike, hnone⟩ : Alike submitter u (step settings submitter u s event).1 s' ∧ _ :=
        h.step_left hevent hvisible
      rw [List.filter_cons_of_neg (by simp [hvisible]), observed_cons, hnone,
        ih halike (howned.step hevent) howned' hrest]
      simp
    | true =>
      obtain ⟨halike, hreply⟩ : Alike submitter u (step settings submitter u s event).1
          (step settings submitter u s' event).1 ∧ _ := h.step howned howned' hvisible
      rw [List.filter_cons_of_pos hvisible, observed_cons, observed_cons,
        ih halike (howned.step hevent) (howned'.step hevent) hrest]
      congr 1
      split_ifs with hasks
      · rfl
      · rw [hreply (Bool.eq_false_iff.mpr hasks)]

/-- Where the runs of others are indexed under no key of the caller, it is shown its own runs only,
and in two histories that differ in the runs of others it gets the same replies, but for what it
asks about their runs by their ids. -/
theorem runs_isolated {events events' : List Event}
    (hkeeps : ∀ event ∈ events, KeepsOff submitter u event)
    (hkeeps' : ∀ event ∈ events', KeepsOff submitter u event)
    (hsame : events.filter (visible submitter u) = events'.filter (visible submitter u)) :
    (∀ reply ∈ replies settings submitter u events emptyStore, reply.2.OwnedBy submitter u) ∧
    observed settings submitter u events emptyStore =
      observed settings submitter u events' emptyStore := by
  have howned : Owned submitter u emptyStore := ⟨nofun, nofun⟩
  have halike : Alike submitter u emptyStore emptyStore :=
    ⟨rfl, fun _ _ => rfl, fun _ _ => rfl, fun _ => rfl⟩
  refine ⟨replies_owned howned hkeeps, ?_⟩
  rw [observed_filter halike howned howned hkeeps, observed_filter halike howned howned hkeeps',
    hsame]

theorem shared_key_iff {toolName name : Text} :
    recentKey toolName none = recentKey name (some u) ↔ toolName = u ++ ':' :: name := by
  show "recent:".toList ++ toolName = "recent:".toList ++ u ++ ':' :: name ↔ _
  rw [List.append_assoc, List.append_cancel_left_eq]

theorem own_key_iff {toolName name v : Text} :
    recentKey toolName (some v) = recentKey name (some u) ↔
      v ++ ':' :: toolName = u ++ ':' :: name := by
  show "recent:".toList ++ v ++ ':' :: toolName = "recent:".toList ++ u ++ ':' :: name ↔ _
  rw [List.append_assoc, List.append_assoc, List.append_cancel_left_eq]

/-- The first run is the caller's, and the second another's. -/
def twoSubmitters : Submitter := fun runId =>
  if runId = ['1'] then some (some ['u']) else if runId = ['2'] then some (some ['v']) else none

theorem keepsOff_two {runId : Text} (hrun : runId = ['1'] ∨ runId = ['2']) (startedAt score : ℤ) :
    KeepsOff twoSubmitters ['u'] (.submit runId ['t'] startedAt score) := by
  obtain rfl | rfl := hrun
  · refine ⟨by simp [twoSubmitters], fun hforeign => ?_⟩
    simp [foreign, twoSubmitters] at hforeign
  · refine ⟨by simp [twoSubmitters], fun _ name => ⟨fun h => ?_, fun v hv h => ?_⟩⟩
    · simp [shared_key_iff] at h
    · simp only [twoSubmitters, List.cons.injEq, Char.reduceEq, false_and, if_false, if_true,
        Option.some.injEq] at hv
      subst hv
      simp [own_key_iff] at h

/-- The caller lists its runs beside a run of another. -/
theorem runs_isolated_two :
    (∀ reply ∈ replies ⟨50, 86400, 30⟩ twoSubmitters ['u']
        [.submit ['1'] ['t'] 1 1, .submit ['2'] ['t'] 2 2, .list ['t'] 3] emptyStore,
      reply.2.OwnedBy twoSubmitters ['u']) ∧
    observed ⟨50, 86400, 30⟩ twoSubmitters ['u']
        [.submit ['1'] ['t'] 1 1, .submit ['2'] ['t'] 2 2, .list ['t'] 3] emptyStore =
      observed ⟨50, 86400, 30⟩ twoSubmitters ['u']
        [.submit ['1'] ['t'] 1 1, .list ['t'] 3] emptyStore := by
  refine runs_isolated (fun event hevent => ?_) (fun event hevent => ?_) rfl
  · simp only [List.mem_cons, List.not_mem_nil, or_false] at hevent
    obtain rfl | rfl | rfl := hevent
    · exact keepsOff_two (.inl rfl) 1 1
    · exact keepsOff_two (.inr rfl) 2 2
    · trivial
  · simp only [List.mem_cons, List.not_mem_nil, or_false] at hevent
    obtain rfl | rfl := hevent
    · exact keepsOff_two (.inl rfl) 1 1
    · trivial

/-- The id of another's run is denied, and unknown where the run was not submitted. -/
theorem denied_or_unknown :
    ([.submit ['2'] ['t'] 2 2, .get ['2'] 3] : List Event).filter (visible twoSubmitters ['u']) =
      [.get ['2'] 3] ∧
    (replies ⟨50, 86400, 30⟩ twoSubmitters ['u'] [.submit ['2'] ['t'] 2 2, .get ['2'] 3]
      emptyStore).map Prod.snd = [.forbidden] ∧
    (replies ⟨50, 86400, 30⟩ twoSubmitters ['u'] [.get ['2'] 3] emptyStore).map Prod.snd =
      [.notFound] := by
  refine ⟨rfl, ?_, ?_⟩
  · decide +kernel
  · decide +kernel

end TaiSkeleton.ToolRuns
