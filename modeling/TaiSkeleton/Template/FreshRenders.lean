import TaiSkeleton.Template.ResourceManager

/-!
# Fresh renders

A render is fresh where it takes of no path a copy from before a write that had returned when it
started. The eviction of a write reaches the fetches under the ids it can name; where nothing older
than the write is left elsewhere, every render is fresh.
-/

namespace TaiSkeleton.Template

open Lib

variable {π α : Type} [DecidableEq π]

/-- The copy is at least as new as the writes of its path. -/
def Copy.IsNew (writes : List (π × ℕ)) (copy : Copy π α) : Prop :=
  ∀ write ∈ writes, write.1 = copy.path → write.2 ≤ copy.asOf

instance (writes : List (π × ℕ)) (copy : Copy π α) : Decidable (copy.IsNew writes) :=
  inferInstanceAs (Decidable (∀ write ∈ writes, write.1 = copy.path → write.2 ≤ copy.asOf))

/-- Everything it has taken is as new as the writes that had returned. -/
def Render.Fresh (render : Render π α) : Prop :=
  ∀ copy ∈ render.uses, copy.IsNew render.returned

instance (render : Render π α) : Decidable render.Fresh :=
  inferInstanceAs (Decidable (∀ copy ∈ render.uses, copy.IsNew render.returned))

namespace ResourceManager

variable (m : ResourceManager π α)

/-- The copies that later renders may take and the eviction of a write leaves: those of the engine,
those on their way to it, and the fetches under ids that it does not reach. -/
def kept (call : WriteCall α) : List (Copy π α) :=
  m.engine.map Prod.snd ++ m.loads.map (·.2.2) ++
    (m.evict call).compiled.filterMap fun entry => (m.fetches entry.2).bind FetchAndCompile.copy

/-- A write that returns leaves no copy from before it. -/
def evictsAll : Action π α → Bool
  | .finish w => (m.writing w).all fun write =>
      (m.kept write.call).all fun copy => copy.IsNew write.written
  | _ => true

end ResourceManager

/-- A write that returns leaves no copy from before it. -/
def EvictsAll (m : ResourceManager π α) (action : Action π α) : Prop := m.evictsAll action = true

/-! ## The copies of a worker -/

/-- What is read of a fetch is new. -/
def ReadsNew (fetches : ℕ → Option (FetchAndCompile π α)) (f : ℕ) (writes : List (π × ℕ)) : Prop :=
  ∃ fetch, fetches f = some fetch ∧ ∀ copy, fetch.copy = some copy → copy.IsNew writes

/-- A render knows of writes that have returned, and takes what is as new as these. -/
structure Render.Sound (render : Render π α) (fetches : ℕ → Option (FetchAndCompile π α))
    (returned : List (π × ℕ)) : Prop where
  returned : render.returned ⊆ returned
  awaiting : ∀ f, render.awaiting = some f → ReadsNew fetches f render.returned
  fresh : render.Fresh

/-- Whatever a render may take is as new as the writes that have returned. -/
structure Sound (m : ResourceManager π α) : Prop where
  returned : ∀ write ∈ m.returned, write.2 ≤ m.writes write.1
  writing : ∀ w call, m.writing w = some call → ∀ write ∈ call.written, write.2 ≤ m.writes write.1
  engine : ∀ entry ∈ m.engine, entry.2.IsNew m.returned
  loads : ∀ entry ∈ m.loads, entry.2.2.IsNew m.returned
  compiled : ∀ entry ∈ m.compiled, ReadsNew m.fetches entry.2 m.returned
  renders : ∀ r render, m.renders r = some render → render.Sound m.fetches m.returned

variable {m m' : ResourceManager π α} {f r w : ℕ} {render : Render π α} {copy : Copy π α}

theorem Copy.IsNew.mono {writes writes' : List (π × ℕ)} (h : copy.IsNew writes')
    (hsub : writes ⊆ writes') : copy.IsNew writes := fun write hwrite => h write (hsub hwrite)

/-- A render of nothing yet, which may await a fetch. -/
theorem Render.Sound.start {texts : List α} {awaiting : Option ℕ}
    (hawaiting : ∀ f, awaiting = some f → ReadsNew m.fetches f m.returned) :
    Render.Sound ⟨m.returned, awaiting, texts, [], none⟩ m.fetches m.returned where
  returned := List.Subset.refl _
  awaiting := hawaiting
  fresh _ hcopy := by cases hcopy

namespace Sound

theorem read (h : Sound m) (path : π) : (m.read path).IsNew m.returned := by
  rintro write hwrite rfl
  exact h.returned write hwrite

/-- A fetch that is new, or goes on with what it has read. -/
theorem setFetch (h : Sound m) {fetch : FetchAndCompile π α}
    (hcopy : ∀ copy, fetch.copy = some copy → copy.IsNew m.returned ∨
      ∃ old, m.fetches f = some old ∧ old.copy = some copy) : Sound (m.setFetch f fetch) := by
  have hreads : ∀ {f' writes}, writes ⊆ m.returned → ReadsNew m.fetches f' writes →
      ReadsNew (m.setFetch f fetch).fetches f' writes := by
    rintro f' writes hsub ⟨old, hold, hnew⟩
    by_cases heq : f' = f
    · subst heq
      refine ⟨fetch, Function.update_self .., fun copy hfetch => ?_⟩
      obtain hfresh | ⟨old', hold', hread⟩ := hcopy copy hfetch
      · exact hfresh.mono hsub
      · obtain rfl := Option.some.inj (hold.symm.trans hold')
        exact hnew copy hread
    · exact ⟨old, (Function.update_of_ne heq ..).trans hold, hnew⟩
  refine ⟨h.returned, h.writing, h.engine, h.loads, fun entry hentry => ?_, fun r render hr => ?_⟩
  · exact hreads (List.Subset.refl _) (h.compiled entry hentry)
  · obtain ⟨hreturned, hawaiting, hfresh⟩ := h.renders r render hr
    exact ⟨hreturned, fun f' hf' => hreads hreturned (hawaiting f' hf'), hfresh⟩

theorem setRender (h : Sound m) (hrender : render.Sound m.fetches m.returned) :
    Sound (m.setRender r render) := by
  refine ⟨h.returned, h.writing, h.engine, h.loads, h.compiled, fun r' render' hr' => ?_⟩
  by_cases heq : r' = r
  · subst heq
    obtain rfl : render = render' := by simpa [ResourceManager.setRender] using hr'
    exact hrender
  · exact h.renders r' render' ((Function.update_of_ne heq ..).symm.trans hr')

/-- Other entries, each of which is new. -/
theorem caches (h : Sound m) {compiled : List (TemplateId × ℕ)} {ids : List TemplateId}
    {engine : List (TemplateId × Copy π α)} {loads : List (ℕ × TemplateId × Copy π α)}
    (hcompiled : ∀ entry ∈ compiled, ReadsNew m.fetches entry.2 m.returned)
    (hengine : ∀ entry ∈ engine, entry.2.IsNew m.returned)
    (hloads : ∀ entry ∈ loads, entry.2.2.IsNew m.returned) :
    Sound { m with compiled, engine, loads, cachedTemplateIds := ids } where
  returned := h.returned
  writing := h.writing
  engine := hengine
  loads := hloads
  compiled := hcompiled
  renders := h.renders

theorem use (h : Sound m) (hr : m.renders r = some render) (hcopy : copy.IsNew render.returned) :
    Sound (m.use r render copy) := by
  obtain ⟨hreturned, -, hfresh⟩ := h.renders r render hr
  refine h.setRender ⟨hreturned, fun _ hf => (by cases hf), fun copy' hcopy' => ?_⟩
  obtain rfl | hold := List.mem_cons.mp hcopy'
  · exact hcopy
  · exact hfresh copy' hold

theorem lookup_loads (h : Sound m) {name : TemplateId} (hr : m.renders r = some render)
    (hload : m.loads.lookup r = some (name, copy)) : copy.IsNew render.returned :=
  (h.loads _ (mem_of_lookup hload)).mono (h.renders r render hr).returned

/-! ## Steps -/

/-- The storage writes. -/
theorem store (h : Sound m) {paths : List π} {text : Option α} {call : WriteCall α} :
    let write : Write π α := ⟨call, paths.map fun path => (path, (m.put paths text).writes path)⟩
    Sound { m.put paths text with writing := Function.update m.writing w (some write) } := by
  intro write
  have hgrows : ∀ path, m.writes path ≤ (m.put paths text).writes path := by
    intro path
    show m.writes path ≤ if path ∈ paths then m.writes path + 1 else m.writes path
    split_ifs
    · exact Nat.le_succ _
    · exact le_rfl
  refine ⟨fun write hwrite => (h.returned write hwrite).trans (hgrows _), fun w' write' hw' => ?_,
    h.engine, h.loads, h.compiled, h.renders⟩
  have hw' : Function.update m.writing w (some write) w' = some write' := hw'
  by_cases heq : w' = w
  · subst heq
    rw [Function.update_self] at hw'
    obtain rfl := Option.some.inj hw'
    intro write hwrite
    obtain ⟨path, -, rfl⟩ := List.mem_map.mp hwrite
    exact le_rfl
  · rw [Function.update_of_ne heq] at hw'
    exact fun write hwrite => (h.writing w' write' hw' write hwrite).trans (hgrows _)

theorem evict_spec (m : ResourceManager π α) (call : WriteCall α) :
    ∃ compiled ids, m.evict call = { m with compiled, cachedTemplateIds := ids } ∧
      ∀ entry ∈ compiled, entry ∈ m.compiled := by
  have hcompiled : ∀ path, ∃ compiled ids,
      m.evictCompiled path = { m with compiled, cachedTemplateIds := ids } ∧
        ∀ entry ∈ compiled, entry ∈ m.compiled := by
    refine fun path => ⟨_, _, rfl, fun entry hentry => ?_⟩
    split_ifs at hentry
    · exact (List.mem_filter.mp hentry).1
    · exact hentry
  cases call with
  | upload path text => exact hcompiled path
  | delete path => exact hcompiled path
  | deleteDir path =>
    unfold ResourceManager.evict ResourceManager.evictCompiledPrefix
    simp only
    split_ifs
    · exact ⟨_, _, rfl, fun entry hentry => (List.mem_filter.mp hentry).1⟩
    · exact ⟨_, _, rfl, fun entry hentry => hentry⟩

/-- A write returns that has left nothing from before it. -/
theorem finish (h : Sound m) {write : Write π α} (hw : m.writing w = some write)
    (hkept : ∀ copy ∈ m.kept write.call, copy.IsNew write.written) :
    Sound { m.evict write.call with
      returned := write.written ++ m.returned
      writing := Function.update m.writing w none } := by
  obtain ⟨compiled, ids, hevict, hsub⟩ := evict_spec m write.call
  have hnew : ∀ {copy : Copy π α}, copy ∈ m.kept write.call → copy.IsNew m.returned →
      copy.IsNew (write.written ++ m.returned) := by
    intro copy hcopy hold entry hentry
    obtain hentry | hentry := List.mem_append.mp hentry
    · exact hkept copy hcopy entry hentry
    · exact hold entry hentry
  have hcompiled : ∀ entry ∈ compiled,
      ReadsNew m.fetches entry.2 (write.written ++ m.returned) := by
    intro entry hentry
    obtain ⟨fetch, hfetch, hread⟩ := h.compiled entry (hsub entry hentry)
    refine ⟨fetch, hfetch, fun copy hcopy => hnew ?_ (hread copy hcopy)⟩
    refine List.mem_append_right _ (List.mem_filterMap.mpr ⟨entry, ?_, ?_⟩)
    · rwa [hevict]
    · rw [hfetch]
      exact hcopy
  rw [hevict]
  refine ⟨fun entry hentry => ?_, fun w' write' hw' => ?_, fun entry hentry => ?_,
    fun entry hentry => ?_, hcompiled, fun r render hr => ?_⟩
  · obtain hentry | hentry := List.mem_append.mp hentry
    · exact h.writing w write hw entry hentry
    · exact h.returned entry hentry
  · have hw' : Function.update m.writing w none w' = some write' := hw'
    by_cases heq : w' = w
    · subst heq
      rw [Function.update_self] at hw'
      cases hw'
    · rw [Function.update_of_ne heq] at hw'
      exact h.writing w' write' hw'
  · exact hnew (List.mem_append_left _ (List.mem_append_left _ (List.mem_map_of_mem hentry)))
      (h.engine entry hentry)
  · exact hnew (List.mem_append_left _ (List.mem_append_right _ (List.mem_map_of_mem hentry)))
      (h.loads entry hentry)
  · obtain ⟨hreturned, hawaiting, hfresh⟩ := h.renders r render hr
    exact ⟨fun _ hmem => List.mem_append_right _ (hreturned hmem), hawaiting, hfresh⟩

/-- A render by id looks its id up. -/
theorem getCompiledTemplate (h : Sound m) {templateId : TemplateId} {fresh : ℕ}
    (hget : m.getCompiledTemplate templateId fresh = some (m', f)) :
    Sound m' ∧ m'.returned = m.returned ∧ ReadsNew m'.fetches f m.returned := by
  unfold ResourceManager.getCompiledTemplate at hget
  split at hget
  · next found hfound =>
    obtain ⟨rfl, rfl⟩ := Prod.mk.inj (Option.some.inj hget)
    refine ⟨h, rfl, ?_⟩
    split_ifs at hfound
    exact h.compiled _ (mem_of_lookup hfound)
  · split at hget
    · cases hget
    · next hfresh =>
      have hcalled : Sound (m.setFetch fresh ⟨templateId, .loading⟩) :=
        h.setFetch fun copy hcopy => by cases hcopy
      have hreads : ReadsNew (m.setFetch fresh ⟨templateId, .loading⟩).fetches fresh m.returned :=
        ⟨_, Function.update_self .., fun copy hcopy => by cases hcopy⟩
      split_ifs at hget
      · obtain ⟨rfl, rfl⟩ := Prod.mk.inj (Option.some.inj hget)
        refine ⟨hcalled.caches (fun entry hentry => ?_) hcalled.engine hcalled.loads, rfl, hreads⟩
        obtain hold | rfl := mem_dictPut hentry
        · exact hcalled.compiled entry hold
        · exact hreads
      · obtain ⟨rfl, rfl⟩ := Prod.mk.inj (Option.some.inj hget)
        exact ⟨hcalled, rfl, hreads⟩

theorem dropCompiled (h : Sound m) {templateId : TemplateId} :
    Sound { m with compiled := dictPop m.compiled templateId } :=
  h.caches (fun entry hentry => h.compiled entry (List.mem_filter.mp hentry).1) h.engine h.loads

/-- The storage answers a fetch. -/
theorem load (h : Sound m) {norm : TemplateId → π} {templateId : TemplateId} :
    Sound (m.load norm f templateId) := by
  unfold ResourceManager.load
  split_ifs
  · refine h.setFetch fun copy hcopy => .inl ?_
    obtain rfl := Option.some.inj hcopy
    exact h.read _
  · have hset : Sound (m.setFetch f ⟨templateId, .unsafePath⟩) :=
      h.setFetch fun copy hcopy => by cases hcopy
    exact hset.dropCompiled

theorem track (h : Sound m) {templateId : TemplateId} : Sound (m.track templateId) := by
  unfold ResourceManager.track
  split_ifs
  · exact h.caches h.compiled h.engine h.loads
  · exact h

/-- A fetch goes on to its end. -/
theorem compile (h : Sound m) {templateId : TemplateId}
    (hf : m.fetches f = some ⟨templateId, .loaded copy⟩) : Sound (m.compile f templateId copy) := by
  have hended : Sound (m.setFetch f ⟨templateId, .finished copy⟩) :=
    h.setFetch fun _ hcopy => .inr ⟨_, hf, hcopy⟩
  unfold ResourceManager.compile
  split
  · exact hended.track
  · exact hended.dropCompiled

/-- What every step keeps. -/
theorem next (h : Sound m) {norm : TemplateId → π} {refs : α → List TemplateId}
    {action : Action π α} (hevicts : m.evictsAll action = true)
    (hnext : m.next norm refs action = some m') : Sound m' := by
  cases action with
  | store w call removed =>
    simp only [ResourceManager.next] at hnext
    split at hnext
    · cases hnext
    · obtain rfl := Option.some.inj hnext
      exact h.store
  | finish w =>
    obtain ⟨write, hw, rfl⟩ := Option.map_eq_some_iff.mp hnext
    simp only [ResourceManager.evictsAll, hw, Option.all_some, List.all_eq_true,
      decide_eq_true_eq] at hevicts
    exact h.finish hw hevicts
  | renderById r templateId fresh =>
    simp only [ResourceManager.next] at hnext
    split at hnext
    · cases hnext
    · obtain ⟨⟨called, f⟩, hget, rfl⟩ := Option.map_eq_some_iff.mp hnext
      obtain ⟨hcalled, hreturned, hreads⟩ := h.getCompiledTemplate hget
      refine hcalled.setRender ?_
      rw [← hreturned] at hreads ⊢
      exact .start fun f' hf' => Option.some.inj hf' ▸ hreads
  | renderContent r text =>
    simp only [ResourceManager.next] at hnext
    split at hnext
    · cases hnext
    · obtain rfl := Option.some.inj hnext
      exact h.setRender (.start fun _ hf => by cases hf)
  | load f =>
    simp only [ResourceManager.next] at hnext
    split at hnext
    · obtain rfl := Option.some.inj hnext
      exact h.load
    · cases hnext
  | compile f =>
    simp only [ResourceManager.next] at hnext
    split at hnext
    · next hf =>
      obtain rfl := Option.some.inj hnext
      exact h.compile hf
    · cases hnext
  | deliver r =>
    obtain ⟨render, hr, hnext⟩ := Option.bind_eq_some_iff.mp hnext
    obtain ⟨hreturned, hawaiting, hfresh⟩ := h.renders r render hr
    split at hnext
    · next copy hfinished =>
      obtain rfl := Option.some.inj hnext
      obtain ⟨f, hf, hfetch⟩ := Option.bind_eq_some_iff.mp hfinished
      obtain ⟨fetch, hfetch', hnew⟩ := hawaiting f hf
      obtain rfl := Option.some.inj (hfetch'.symm.trans hfetch)
      exact h.use hr (hnew copy rfl)
    · obtain rfl := Option.some.inj hnext
      exact h.setRender ⟨hreturned, fun _ hf => (by cases hf), hfresh⟩
    · cases hnext
  | getTemplate r name =>
    obtain ⟨render, hr, hnext⟩ := Option.bind_eq_some_iff.mp hnext
    obtain ⟨hreturned, hawaiting, hfresh⟩ := h.renders r render hr
    split_ifs at hnext
    split at hnext
    · next copy hcached =>
      obtain rfl := Option.some.inj hnext
      exact h.use hr ((h.engine _ (mem_of_lookup hcached)).mono hreturned)
    · obtain rfl := Option.some.inj hnext
      exact h.setRender ⟨hreturned, hawaiting, hfresh⟩
  | syncLoader r =>
    obtain ⟨render, hr, hnext⟩ := Option.bind_eq_some_iff.mp hnext
    obtain ⟨hreturned, hawaiting, hfresh⟩ := h.renders r render hr
    split at hnext
    · next name _ _ =>
      split_ifs at hnext
      · dsimp only at hnext
        split at hnext
        · obtain rfl := Option.some.inj hnext
          refine h.caches h.compiled h.engine fun entry hentry => ?_
          obtain hold | rfl := mem_dictPut hentry
          · exact h.loads entry hold
          · exact h.read (norm name)
        · obtain rfl := Option.some.inj hnext
          exact h.use hr ((h.read (norm name)).mono hreturned)
      · obtain rfl := Option.some.inj hnext
        exact h.setRender ⟨hreturned, hawaiting, hfresh⟩
    · cases hnext
  | cacheInclude r =>
    obtain ⟨render, hr, hnext⟩ := Option.bind_eq_some_iff.mp hnext
    obtain ⟨⟨name, copy⟩, hload, rfl⟩ := Option.map_eq_some_iff.mp hnext
    have hused := h.use hr (h.lookup_loads hr hload)
    refine hused.caches hused.compiled (fun entry hentry => ?_) fun entry hentry => ?_
    · obtain hold | rfl := mem_dictPut hentry
      · exact h.engine entry hold
      · exact h.loads _ (mem_of_lookup hload)
    · exact h.loads entry (List.mem_filter.mp hentry).1
  | dropCompiled templateId =>
    obtain rfl := Option.some.inj hnext
    exact h.dropCompiled
  | dropInclude name =>
    obtain rfl := Option.some.inj hnext
    exact h.caches h.compiled (fun entry hentry => h.engine entry (List.mem_filter.mp hentry).1)
      h.loads
  | clearCache =>
    simp only [ResourceManager.next] at hnext
    split_ifs at hnext
    · obtain rfl := Option.some.inj hnext
      exact h.caches (fun entry hentry => by cases hentry) h.engine h.loads
    · obtain rfl := Option.some.inj hnext
      exact h

end Sound

/-- In every run whose writes return with no copy left from before them, every render is fresh. -/
theorem renders_fresh {norm : TemplateId → π} {refs : α → List TemplateId}
    (h : ((renders norm refs).when EvictsAll).Reachable m) (hr : m.renders r = some render) :
    render.Fresh := by
  have hsound : Sound m := by
    refine h.invariant (p := fun m : ResourceManager π α => Sound m) ?_ ?_
    · rintro m ⟨stored, cacheEnabled, rfl⟩
      exact ⟨fun _ hwrite => (by cases hwrite), fun _ _ hwrite => (by cases hwrite),
        fun _ hentry => (by cases hentry), fun _ hentry => (by cases hentry),
        fun _ hentry => (by cases hentry), fun _ _ hrender => (by cases hrender)⟩
    · rintro m action m' hsound ⟨hevicts, hnext⟩
      exact hsound.next hevicts hnext
  exact (hsound.renders r render hr).fresh

/-! ## A storage whose texts are the names they include -/

/-- A provider that takes a leading `./` for nothing. -/
def storagePath (templateId : TemplateId) : TemplateId :=
  if "./".toList.isPrefixOf templateId then templateId.drop 2 else templateId

/-- `a` includes `b`, and `d/a` includes nothing. -/
def pages : ResourceManager TemplateId (List TemplateId) where
  stored path := if path = ['a'] then some [['b']]
    else if path = ['b'] ∨ path = "d/a".toList then some []
    else none
  writes _ := 0
  returned := []
  cacheEnabled := true
  compiled := []
  cachedTemplateIds := []
  fetches _ := none
  engine := []
  loads := []
  renders _ := none
  writing _ := none

/-- The steps over such a storage. -/
def pagesNext (m : ResourceManager TemplateId (List TemplateId))
    (action : Action TemplateId (List TemplateId)) :
    Option (ResourceManager TemplateId (List TemplateId)) :=
  m.next storagePath id action

/-- A render of `d/a` before an upload of it, and one after. -/
def uploadRun : List (Action TemplateId (List TemplateId)) :=
  let path := "d/a".toList
  [.renderById 0 path 0, .load 0, .compile 0, .deliver 0, .store 0 (.upload path [['c']]) [],
    .finish 0, .renderById 1 path 1, .load 1, .compile 1, .deliver 1]

theorem renders_fresh_uploadRun : ∃ (m : ResourceManager TemplateId (List TemplateId))
    (render : Render TemplateId (List TemplateId)),
    m.renders 1 = some render ∧ render.uses ≠ [] ∧ render.Fresh := by
  have hrun : (uploadRun.foldlM (System.guarded pagesNext ResourceManager.evictsAll) pages).any
      (fun m => (m.renders 1).any fun render => !render.uses.isEmpty) = true := by
    decide +kernel
  obtain ⟨m, hreachable, hlast⟩ := System.Reachable.of_foldlM
    (S := (renders storagePath id).when EvictsAll)
    (fun _ _ _ h => System.step_of_guarded (f := pagesNext) h) ⟨pages.stored, true, rfl⟩ hrun
  obtain ⟨render, hrender, huses⟩ := (Option.any_eq_true _ _).mp hlast
  exact ⟨m, render, hrender, by simpa using huses, renders_fresh hreachable hrender⟩

/-- `a` is rendered before an upload of `b`, which it includes, and after. -/
def includeRun : List (Action TemplateId (List TemplateId)) :=
  [.renderById 0 ['a'] 0, .load 0, .compile 0, .deliver 0, .getTemplate 0 ['b'], .syncLoader 0,
    .cacheInclude 0, .store 0 (.upload ['b'] [['c']]) [], .finish 0, .renderById 1 ['a'] 1,
    .deliver 1, .getTemplate 1 ['b']]

/-- `./a` is rendered before an upload of `a`, and after. -/
def spellingRun : List (Action TemplateId (List TemplateId)) :=
  let path := "./a".toList
  [.renderById 0 path 0, .load 0, .compile 0, .deliver 0, .store 0 (.upload ['a'] []) [],
    .finish 0, .renderById 1 path 1, .deliver 1]

/-- `d` is deleted while a fetch of `d/a` has been answered and has not gone on. -/
def inFlightRun : List (Action TemplateId (List TemplateId)) :=
  let path := "d/a".toList
  [.renderById 0 path 0, .load 0, .store 0 (.deleteDir ['d']) [path], .finish 0, .compile 0,
    .renderById 1 path 1, .deliver 1]

/-- The second render of the run is not fresh. -/
def StaleAfter (run : List (Action TemplateId (List TemplateId))) : Prop :=
  ∃ m, run.foldlM pagesNext pages = some m ∧ (renders storagePath id).Reachable m ∧
    ∃ render, m.renders 1 = some render ∧ ¬render.Fresh

theorem staleAfter {run : List (Action TemplateId (List TemplateId))}
    (h : (run.foldlM pagesNext pages).any (fun m =>
      (m.renders 1).any fun render => !decide render.Fresh) = true) : StaleAfter run := by
  obtain ⟨m, hm, hlast⟩ := (Option.any_eq_true _ _).mp h
  obtain ⟨render, hrender, hstale⟩ := (Option.any_eq_true _ _).mp hlast
  exact ⟨m, hm, ⟨pages, ⟨pages.stored, true, rfl⟩, .of_foldlM (fun _ _ _ h => h) hm⟩, render,
    hrender, by simpa using hstale⟩

/-- A render that starts after an upload has returned includes what was there before; one by
another spelling takes the text from before an upload; and one takes a deleted template. -/
theorem stale_renders : StaleAfter includeRun ∧ StaleAfter spellingRun ∧ StaleAfter inFlightRun :=
  ⟨staleAfter (by decide +kernel), staleAfter (by decide +kernel), staleAfter (by decide +kernel)⟩

end TaiSkeleton.Template
