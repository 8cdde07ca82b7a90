import Mathlib.Data.List.Infix

/-!
# Caches keyed by a version

Rows change by commits, and a version counter is incremented at some time after a commit. A reader
reads the version once, and then takes rows out of the caches under that version, where a miss
fetches the row as it stands. Whatever a reader takes is as new as the commits that the increments
up to its version have come after.
-/

namespace Lib

variable {κ ν ω : Type}

/-! ## The rows and their version -/

/-- The rows with the log of their commits; `bumpAt` says after how many commits the counter came
to a version. -/
structure Versioned (κ ν : Type) where
  base : κ → Option ν
  log : List (List (κ × Option ν))
  version : ℕ
  bumpAt : ℕ → ℕ

namespace Versioned

section Rows

variable [DecidableEq κ]

/-- The rows that a commit leaves. -/
def write (rows : κ → Option ν) (commit : List (κ × Option ν)) : κ → Option ν :=
  commit.foldl (fun rows entry => Function.update rows entry.1 entry.2) rows

/-- A row after the first commits of the log. -/
def rowAt (s : Versioned κ ν) (n : ℕ) : κ → Option ν := (s.log.take n).foldl write s.base

end Rows

def commit (s : Versioned κ ν) (updates : List (κ × Option ν)) : Versioned κ ν :=
  { s with log := s.log ++ [updates] }

def bump (s : Versioned κ ν) : Versioned κ ν :=
  { s with
    version := s.version + 1
    bumpAt := Function.update s.bumpAt (s.version + 1) s.log.length }

/-- The commits that an increment has come after. -/
def covered (s : Versioned κ ν) : ℕ := s.bumpAt s.version

structure Sound (s : Versioned κ ν) : Prop where
  mono : ∀ v w, v ≤ w → w ≤ s.version → s.bumpAt v ≤ s.bumpAt w
  le : s.covered ≤ s.log.length

/-- What later states keep. -/
structure Grows (s s' : Versioned κ ν) : Prop where
  base : s'.base = s.base
  log : s.log <+: s'.log
  version : s.version ≤ s'.version
  bumpAt : ∀ v ≤ s.version, s'.bumpAt v = s.bumpAt v

variable {s s' : Versioned κ ν} {updates : List (κ × Option ν)} {n : ℕ}

theorem Grows.refl (s : Versioned κ ν) : Grows s s := ⟨rfl, List.prefix_rfl, le_rfl, fun _ _ => rfl⟩

theorem grows_commit : Grows s (s.commit updates) :=
  ⟨rfl, List.prefix_append _ _, le_rfl, fun _ _ => rfl⟩

theorem grows_bump : Grows s s.bump where
  base := rfl
  log := List.prefix_rfl
  version := Nat.le_succ _
  bumpAt v hv := Function.update_of_ne (by omega) _ _

theorem Grows.length_le (h : Grows s s') : s.log.length ≤ s'.log.length := h.log.length_le

theorem Grows.covered_le (h : Grows s s') (hsound : s'.Sound) : s.covered ≤ s'.covered := by
  calc s.covered = s'.bumpAt s.version := (h.bumpAt _ le_rfl).symm
    _ ≤ s'.covered := hsound.mono _ _ h.version le_rfl

theorem Grows.rowAt [DecidableEq κ] (h : Grows s s') (hn : n ≤ s.log.length) :
    s'.rowAt n = s.rowAt n := by
  obtain ⟨later, hlater⟩ := h.log
  unfold Versioned.rowAt
  rw [h.base, ← hlater, List.take_append_of_le_length hn]

theorem rowAt_commit [DecidableEq κ] : (s.commit updates).rowAt (s.commit updates).log.length =
    write (s.rowAt s.log.length) updates := by
  simp only [rowAt, commit, List.take_length, List.foldl_append, List.foldl_cons, List.foldl_nil]

@[simp]
theorem length_commit : (s.commit updates).log.length = s.log.length + 1 := by
  simp [commit]

theorem Sound.commit (h : s.Sound) : (s.commit updates).Sound where
  mono := h.mono
  le := h.le.trans grows_commit.length_le

theorem covered_bump : s.bump.covered = s.log.length := Function.update_self ..

theorem Sound.bump (h : s.Sound) : s.bump.Sound where
  mono v w hvw hw := by
    obtain hw | rfl := Nat.le_succ_iff.mp hw
    · rw [grows_bump.bumpAt v (hvw.trans hw), grows_bump.bumpAt w hw]
      exact h.mono v w hvw hw
    · obtain hv | rfl := Nat.le_succ_iff.mp hvw
      · rw [grows_bump.bumpAt v hv]
        calc s.bumpAt v ≤ s.covered := h.mono v _ hv le_rfl
          _ ≤ s.log.length := h.le
          _ = s.bump.bumpAt (s.version + 1) := covered_bump.symm
      · exact le_rfl
  le := covered_bump.le

end Versioned

/-! ## Fetches and readers -/

/-- A value of a row, and after how many commits it was read. -/
structure RowRead (ν : Type) where
  value : Option ν
  asOf : ℕ

inductive FetchState (ν : Type) where
  | running
  | failed
  | done (read : RowRead ν)

/-- A fetch of a row that a reader of a version has started. -/
structure Fetch (κ ν : Type) where
  key : κ
  version : ℕ
  state : FetchState ν

/-- A reader with the version that it has read, and `floor`, of how many commits it must see; it
may await a fetch. -/
structure Reader (κ ν ω : Type) where
  worker : ω
  version : ℕ
  floor : ℕ
  awaiting : Option ℕ
  used : List (κ × RowRead ν)

/-- The rows, the caches of the workers with the fetches that their slots hold, and the readers. -/
structure Cached (κ ν ω : Type) where
  source : Versioned κ ν
  fetches : ℕ → Option (Fetch κ ν)
  slots : ω → κ → ℕ → Option ℕ
  readers : ℕ → Option (Reader κ ν ω)

/-- A reader begins, looks a row up, and gets what it awaits; a fetch reads its row or fails; a slot
is emptied. -/
inductive ReadStep (κ ω : Type) where
  | start (d : ℕ) (worker : ω) (floor : ℕ)
  | request (d : ℕ) (key : κ) (fresh : ℕ)
  | fetch (i : ℕ)
  | lose (i : ℕ)
  | deliver (d : ℕ)
  | drop (worker : ω) (key : κ) (version : ℕ)

namespace Cached

variable [DecidableEq κ] [DecidableEq ω]

def setFetch (c : Cached κ ν ω) (i : ℕ) (fetch : Fetch κ ν) : Cached κ ν ω :=
  { c with fetches := Function.update c.fetches i (some fetch) }

def setReader (c : Cached κ ν ω) (d : ℕ) (reader : Reader κ ν ω) : Cached κ ν ω :=
  { c with readers := Function.update c.readers d (some reader) }

def setSlot (c : Cached κ ν ω) (worker : ω) (key : κ) (version : ℕ) (slot : Option ℕ) :
    Cached κ ν ω :=
  { c with slots := fun w k v =>
      if w = worker ∧ k = key ∧ v = version then slot else c.slots w k v }

/-- A lookup finds the slot's fetch, or starts one. -/
def lookup (c : Cached κ ν ω) (d : ℕ) (key : κ) (fresh : ℕ) (reader : Reader κ ν ω) :
    Option (Cached κ ν ω) :=
  match c.slots reader.worker key reader.version with
  | some i => some (c.setReader d { reader with awaiting := some i })
  | none =>
    match c.fetches fresh with
    | some _ => none
    | none => some (((c.setFetch fresh ⟨key, reader.version, .running⟩).setSlot reader.worker key
        reader.version (some fresh)).setReader d { reader with awaiting := some fresh })

/-- A reader takes the value of the fetch that it awaits. -/
def deliver (c : Cached κ ν ω) (d : ℕ) (reader : Reader κ ν ω) : Option (Cached κ ν ω) :=
  match reader.awaiting.bind c.fetches with
  | some ⟨key, _, .done read⟩ =>
    some (c.setReader d { reader with awaiting := none, used := (key, read) :: reader.used })
  | _ => none

def read (c : Cached κ ν ω) : ReadStep κ ω → Option (Cached κ ν ω)
  | .start d worker floor =>
    match c.readers d with
    | some _ => none
    | none => some (c.setReader d ⟨worker, c.source.version, floor, none, []⟩)
  | .request d key fresh => (c.readers d).bind (c.lookup d key fresh)
  | .fetch i =>
    match c.fetches i with
    | some ⟨key, version, .running⟩ =>
      some (c.setFetch i ⟨key, version,
        .done ⟨c.source.rowAt c.source.log.length key, c.source.log.length⟩⟩)
    | _ => none
  | .lose i =>
    match c.fetches i with
    | some ⟨key, version, .running⟩ => some (c.setFetch i ⟨key, version, .failed⟩)
    | _ => none
  | .deliver d => (c.readers d).bind (c.deliver d)
  | .drop worker key version => some (c.setSlot worker key version none)

end Cached

/-! ## What the readers see -/

section Sound

variable [DecidableEq κ]

/-- The value of the row after the commits that it was read after. -/
def RowRead.Of (read : RowRead ν) (s : Versioned κ ν) (key : κ) : Prop :=
  read.asOf ≤ s.log.length ∧ read.value = s.rowAt read.asOf key

/-- A fetch has read its row after the increment to its version. -/
structure Fetch.Sound (fetch : Fetch κ ν) (s : Versioned κ ν) : Prop where
  version : fetch.version ≤ s.version
  done : ∀ read, fetch.state = .done read →
    read.Of s fetch.key ∧ s.bumpAt fetch.version ≤ read.asOf

/-- A reader sees the commits up to its floor. -/
structure Reader.Sound (reader : Reader κ ν ω) (c : Cached κ ν ω) : Prop where
  version : reader.version ≤ c.source.version
  floor : reader.floor ≤ c.source.bumpAt reader.version
  awaiting : ∀ i, reader.awaiting = some i →
    ∃ fetch, c.fetches i = some fetch ∧ fetch.version = reader.version
  used : ∀ entry ∈ reader.used, entry.2.Of c.source entry.1 ∧ reader.floor ≤ entry.2.asOf

structure Cached.Sound (c : Cached κ ν ω) : Prop where
  source : c.source.Sound
  fetches : ∀ i fetch, c.fetches i = some fetch → fetch.Sound c.source
  slots : ∀ worker key version i, c.slots worker key version = some i →
    ∃ fetch, c.fetches i = some fetch ∧ fetch.key = key ∧ fetch.version = version
  readers : ∀ d reader, c.readers d = some reader → reader.Sound c

variable {s s' : Versioned κ ν} {c : Cached κ ν ω}

theorem RowRead.Of.grow {read : RowRead ν} {key : κ} (h : read.Of s key) (hgrows : s.Grows s') :
    read.Of s' key :=
  ⟨h.1.trans hgrows.length_le, by rw [hgrows.rowAt h.1, h.2]⟩

theorem Fetch.Sound.grow {fetch : Fetch κ ν} (h : fetch.Sound s) (hgrows : s.Grows s') :
    fetch.Sound s' where
  version := h.version.trans hgrows.version
  done read hread := by
    obtain ⟨hof, hle⟩ := h.done read hread
    exact ⟨hof.grow hgrows, by rwa [hgrows.bumpAt _ h.version]⟩

namespace Cached.Sound

/-- Nothing has been read yet, nor has the version been incremented. -/
theorem of_unread (hbumpAt : c.source.bumpAt = fun _ => 0) (hfetches : c.fetches = fun _ => none)
    (hslots : c.slots = fun _ _ _ => none) (hreaders : c.readers = fun _ => none) : c.Sound where
  source := by
    have hzero : ∀ v, c.source.bumpAt v = 0 := congrFun hbumpAt
    refine ⟨fun v w _ _ => ?_, ?_⟩
    · rw [hzero, hzero]
    · rw [Versioned.covered, hzero]
      exact Nat.zero_le _
  fetches := by
    intro i fetch hfetch
    rw [hfetches] at hfetch
    cases hfetch
  slots := by
    intro worker key version i hi
    rw [hslots] at hi
    cases hi
  readers := by
    intro d reader hreader
    rw [hreaders] at hreader
    cases hreader

/-- The rows or their version move on. -/
theorem grow (h : c.Sound) (hgrows : c.source.Grows s') (hs' : s'.Sound) :
    Cached.Sound { c with source := s' } where
  source := hs'
  fetches i fetch hfetch := (h.fetches i fetch hfetch).grow hgrows
  slots := h.slots
  readers d reader hreader := by
    have hr := h.readers d reader hreader
    refine ⟨hr.version.trans hgrows.version, ?_, hr.awaiting, fun entry hentry => ?_⟩
    · rw [hgrows.bumpAt _ hr.version]
      exact hr.floor
    · obtain ⟨hof, hle⟩ := hr.used entry hentry
      exact ⟨hof.grow hgrows, hle⟩

variable {i d : ℕ} {fetch : Fetch κ ν} {reader : Reader κ ν ω}

/-- A fetch is started, or goes on under its key and version. -/
theorem setFetch (h : c.Sound) (hfetch : fetch.Sound c.source)
    (hsame : ∀ old, c.fetches i = some old → old.key = fetch.key ∧ old.version = fetch.version) :
    (c.setFetch i fetch).Sound where
  source := h.source
  fetches j f hf := by
    by_cases hj : j = i
    · subst hj
      simp only [Cached.setFetch, Function.update_self, Option.some.injEq] at hf
      subst hf
      exact hfetch
    · simp only [Cached.setFetch, Function.update_of_ne hj] at hf
      exact h.fetches j f hf
  slots worker key version j hj := by
    obtain ⟨f, hf, hkey, hversion⟩ := h.slots worker key version j hj
    by_cases hji : j = i
    · subst hji
      obtain ⟨hk, hv⟩ := hsame f hf
      refine ⟨fetch, ?_, hk.symm.trans hkey, hv.symm.trans hversion⟩
      simp only [Cached.setFetch, Function.update_self]
    · exact ⟨f, by simpa only [Cached.setFetch, Function.update_of_ne hji], hkey, hversion⟩
  readers d reader hreader := by
    have hr := h.readers d reader hreader
    refine ⟨hr.version, hr.floor, fun j hj => ?_, hr.used⟩
    obtain ⟨f, hf, hversion⟩ := hr.awaiting j hj
    by_cases hji : j = i
    · subst hji
      refine ⟨fetch, ?_, (hsame f hf).2.symm.trans hversion⟩
      simp only [Cached.setFetch, Function.update_self]
    · exact ⟨f, by simpa only [Cached.setFetch, Function.update_of_ne hji], hversion⟩

theorem setReader (h : c.Sound) (hreader : reader.Sound c) : (c.setReader d reader).Sound where
  source := h.source
  fetches := h.fetches
  slots := h.slots
  readers e r hr := by
    have hsound : r.Sound c := by
      by_cases he : e = d
      · subst he
        simp only [Cached.setReader, Function.update_self, Option.some.injEq] at hr
        subst hr
        exact hreader
      · simp only [Cached.setReader, Function.update_of_ne he] at hr
        exact h.readers e r hr
    exact ⟨hsound.version, hsound.floor, hsound.awaiting, hsound.used⟩

theorem start (h : c.Sound) {worker : ω} {floor : ℕ} (hfloor : floor ≤ c.source.covered) :
    (c.setReader d ⟨worker, c.source.version, floor, none, []⟩).Sound :=
  h.setReader ⟨le_rfl, hfloor, nofun, nofun⟩

theorem deliver (h : c.Sound) {c' : Cached κ ν ω} (hreader : c.readers d = some reader)
    (hc' : c.deliver d reader = some c') : c'.Sound := by
  have hr := h.readers d reader hreader
  unfold Cached.deliver at hc'
  split at hc'
  · next key version read hawaited =>
    obtain rfl := Option.some.inj hc'
    obtain ⟨i, hi, hfetch⟩ := Option.bind_eq_some_iff.mp hawaited
    obtain ⟨fetch, hfetch', hversion⟩ := hr.awaiting i hi
    rw [hfetch] at hfetch'
    obtain rfl := Option.some.inj hfetch'
    obtain ⟨hof, hle⟩ := (h.fetches i _ hfetch).done read rfl
    refine h.setReader ⟨hr.version, hr.floor, nofun, fun entry hentry => ?_⟩
    obtain rfl | hentry := List.mem_cons.mp hentry
    · refine ⟨hof, ?_⟩
      calc reader.floor ≤ c.source.bumpAt reader.version := hr.floor
        _ = c.source.bumpAt version := by rw [← hversion]
        _ ≤ read.asOf := hle
    · exact hr.used entry hentry
  · cases hc'

variable [DecidableEq ω]

theorem setSlot (h : c.Sound) {worker : ω} {key : κ} {version : ℕ} {slot : Option ℕ}
    (hslot : ∀ i, slot = some i →
      ∃ fetch, c.fetches i = some fetch ∧ fetch.key = key ∧ fetch.version = version) :
    (c.setSlot worker key version slot).Sound where
  source := h.source
  fetches := h.fetches
  slots w k v i hi := by
    simp only [Cached.setSlot] at hi
    split_ifs at hi with heq
    · obtain ⟨rfl, rfl, rfl⟩ := heq
      exact hslot i hi
    · exact h.slots w k v i hi
  readers d reader hreader := by
    have hr := h.readers d reader hreader
    exact ⟨hr.version, hr.floor, hr.awaiting, hr.used⟩

theorem lookup (h : c.Sound) {key : κ} {fresh : ℕ} {c' : Cached κ ν ω}
    (hreader : c.readers d = some reader) (hc' : c.lookup d key fresh reader = some c') :
    c'.Sound := by
  have hr := h.readers d reader hreader
  unfold Cached.lookup at hc'
  split at hc'
  · next i hslot =>
    obtain rfl := Option.some.inj hc'
    refine h.setReader ⟨hr.version, hr.floor, fun j hj => ?_, hr.used⟩
    obtain rfl := Option.some.inj hj
    obtain ⟨fetch, hfetch, -, hversion⟩ := h.slots _ _ _ i hslot
    exact ⟨fetch, hfetch, hversion⟩
  · split at hc'
    · cases hc'
    · next hfresh =>
      obtain rfl := Option.some.inj hc'
      have hstarted : (c.setFetch fresh ⟨key, reader.version, .running⟩).Sound := by
        refine h.setFetch ⟨hr.version, nofun⟩ fun old hold => ?_
        rw [hfresh] at hold
        cases hold
      have hthere : (c.setFetch fresh ⟨key, reader.version, .running⟩).fetches fresh =
          some ⟨key, reader.version, .running⟩ := Function.update_self ..
      have hfilled : ((c.setFetch fresh ⟨key, reader.version, .running⟩).setSlot reader.worker key
          reader.version (some fresh)).Sound := by
        refine hstarted.setSlot fun j hj => ?_
        obtain rfl := Option.some.inj hj
        exact ⟨_, hthere, rfl, rfl⟩
      refine hfilled.setReader ⟨hr.version, hr.floor, fun j hj => ?_, hr.used⟩
      obtain rfl := Option.some.inj hj
      exact ⟨_, hthere, rfl⟩

/-- A step of the readers and the caches; a reader begins with a floor that is covered. -/
theorem read (h : c.Sound) {step : ReadStep κ ω} {c' : Cached κ ν ω}
    (hfloor : ∀ d worker floor, step = .start d worker floor → floor ≤ c.source.covered)
    (hc' : c.read step = some c') : c'.Sound := by
  cases step with
  | start d worker floor =>
    simp only [Cached.read] at hc'
    split at hc'
    · cases hc'
    · obtain rfl := Option.some.inj hc'
      exact h.start (hfloor d worker floor rfl)
  | request d key fresh =>
    obtain ⟨reader, hreader, hlookup⟩ := Option.bind_eq_some_iff.mp hc'
    exact h.lookup hreader hlookup
  | fetch i =>
    simp only [Cached.read] at hc'
    split at hc'
    · next key version hfetch =>
      obtain rfl := Option.some.inj hc'
      have hversion : version ≤ c.source.version := (h.fetches i _ hfetch).version
      refine h.setFetch ⟨hversion, fun read hread => ?_⟩ fun old hold => ?_
      · injection hread with hread
        subst hread
        refine ⟨⟨le_rfl, rfl⟩, ?_⟩
        exact (h.source.mono _ _ hversion le_rfl).trans h.source.le
      · rw [hfetch] at hold
        obtain rfl := Option.some.inj hold
        exact ⟨rfl, rfl⟩
    · cases hc'
  | lose i =>
    simp only [Cached.read] at hc'
    split at hc'
    · next key version hfetch =>
      obtain rfl := Option.some.inj hc'
      refine h.setFetch ⟨(h.fetches i _ hfetch).version, nofun⟩ fun old hold => ?_
      rw [hfetch] at hold
      obtain rfl := Option.some.inj hold
      exact ⟨rfl, rfl⟩
    · cases hc'
  | deliver d =>
    obtain ⟨reader, hreader, hdeliver⟩ := Option.bind_eq_some_iff.mp hc'
    exact h.deliver hreader hdeliver
  | drop worker key version =>
    obtain rfl := Option.some.inj hc'
    exact h.setSlot nofun

end Cached.Sound

end Sound

/-- The readers and the caches leave the rows alone. -/
theorem Cached.source_of_read [DecidableEq κ] [DecidableEq ω] {c c' : Cached κ ν ω}
    {step : ReadStep κ ω} (h : c.read step = some c') : c'.source = c.source := by
  cases step with
  | start d worker floor =>
    simp only [Cached.read] at h
    split at h
    · cases h
    · obtain rfl := Option.some.inj h
      rfl
  | request d key fresh =>
    obtain ⟨reader, -, hlookup⟩ := Option.bind_eq_some_iff.mp h
    unfold Cached.lookup at hlookup
    split at hlookup
    · obtain rfl := Option.some.inj hlookup
      rfl
    · split at hlookup
      · cases hlookup
      · obtain rfl := Option.some.inj hlookup
        rfl
  | fetch i =>
    simp only [Cached.read] at h
    split at h
    · obtain rfl := Option.some.inj h
      rfl
    · cases h
  | lose i =>
    simp only [Cached.read] at h
    split at h
    · obtain rfl := Option.some.inj h
      rfl
    · cases h
  | deliver d =>
    obtain ⟨reader, -, hdeliver⟩ := Option.bind_eq_some_iff.mp h
    unfold Cached.deliver at hdeliver
    split at hdeliver
    · obtain rfl := Option.some.inj hdeliver
      rfl
    · cases hdeliver
  | drop worker key version =>
    obtain rfl := Option.some.inj h
    rfl

/-- A reader keeps the floor that it has begun with. -/
theorem Cached.floor_of_read [DecidableEq κ] [DecidableEq ω] {c c' : Cached κ ν ω}
    {step : ReadStep κ ω} {d : ℕ} {reader' : Reader κ ν ω} (h : c.read step = some c')
    (hreader' : c'.readers d = some reader') :
    (∃ reader, c.readers d = some reader ∧ reader'.floor = reader.floor) ∨
      ∃ worker, step = .start d worker reader'.floor := by
  have hset : ∀ {c₁ : Cached κ ν ω} {e : ℕ} {old new : Reader κ ν ω}, c₁.setReader e new = c' →
      c.readers e = some old → c₁.readers = c.readers → new.floor = old.floor →
        ∃ reader, c.readers d = some reader ∧ reader'.floor = reader.floor := by
    rintro c₁ e old new rfl hold hsame hfloor
    by_cases hd : d = e
    · subst hd
      simp only [Cached.setReader, Function.update_self, Option.some.injEq] at hreader'
      subst hreader'
      exact ⟨old, hold, hfloor⟩
    · simp only [Cached.setReader, Function.update_of_ne hd, hsame] at hreader'
      exact ⟨reader', hreader', rfl⟩
  have hkept : c'.readers = c.readers →
      ∃ reader, c.readers d = some reader ∧ reader'.floor = reader.floor := fun hsame =>
    ⟨reader', by rw [← hsame, hreader'], rfl⟩
  cases step with
  | start e worker floor =>
    simp only [Cached.read] at h
    split at h
    · cases h
    · obtain rfl := Option.some.inj h
      by_cases hd : d = e
      · subst hd
        simp only [Cached.setReader, Function.update_self, Option.some.injEq] at hreader'
        subst hreader'
        exact .inr ⟨worker, rfl⟩
      · simp only [Cached.setReader, Function.update_of_ne hd] at hreader'
        exact .inl ⟨reader', hreader', rfl⟩
  | request e key fresh =>
    obtain ⟨reader, hreader, hlookup⟩ := Option.bind_eq_some_iff.mp h
    unfold Cached.lookup at hlookup
    split at hlookup
    · exact .inl (hset (Option.some.inj hlookup) hreader rfl rfl)
    · split at hlookup
      · cases hlookup
      · exact .inl (hset (Option.some.inj hlookup) hreader rfl rfl)
  | fetch i | lose i =>
    simp only [Cached.read] at h
    split at h
    · exact .inl (hkept (Option.some.inj h ▸ rfl))
    · cases h
  | deliver e =>
    obtain ⟨reader, hreader, hdeliver⟩ := Option.bind_eq_some_iff.mp h
    unfold Cached.deliver at hdeliver
    split at hdeliver
    · exact .inl (hset (Option.some.inj hdeliver) hreader rfl rfl)
    · cases hdeliver
  | drop worker key version => exact .inl (hkept (Option.some.inj h ▸ rfl))

end Lib
