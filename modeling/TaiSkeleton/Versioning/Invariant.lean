import TaiSkeleton.Versioning.Store

/-!
# The invariant of the versioned store

In every reachable state the documents are well formed in the committed rows and in those a
transaction has in flight, apart from one whose first version is not yet there; a key is active
once in what each transaction sees (`Inv`). A step writes one row under its lock, or ends a
transaction, or changes the tags of a version (`Step.effect`).
-/

namespace TaiSkeleton.Versioning

open Lib

variable {β : Type}

/-! ## Well-formed documents -/

namespace Document

/-- The versions are numbered from 1 on without a gap, and the pointer is at one of them. -/
structure WellFormed (doc : Document β) : Prop where
  numbers : doc.numbers = List.range' 1 doc.versions.length
  active : doc.activeVersion ∈ doc.numbers

variable {doc : Document β} {version : ℕ} {body : β} {tags : List String}

@[simp] theorem numbers_append :
    (doc.append version body tags).numbers = doc.numbers ++ [version] := by
  simp [numbers, append]

@[simp] theorem versions_append :
    (doc.append version body tags).versions = doc.versions ++ [⟨version, body, tags⟩] := rfl

@[simp] theorem numbers_retag : (doc.retag version tags).numbers = doc.numbers := by
  unfold numbers retag
  rw [List.map_map]
  refine List.map_congr_left fun row _ => ?_
  show (if row.version = version then { row with tags } else row).version = row.version
  split_ifs <;> rfl

@[simp] theorem log_retag : (doc.retag version tags).log = doc.log := by
  unfold log retag
  rw [List.map_map]
  refine List.map_congr_left fun row _ => ?_
  show ((if row.version = version then { row with tags } else row).version,
    (if row.version = version then { row with tags } else row).body) = (row.version, row.body)
  split_ifs <;> rfl

@[simp] theorem length_versions_retag :
    (doc.retag version tags).versions.length = doc.versions.length := by
  simp [retag]

theorem log_prefix_append : doc.log <+: (doc.append version body tags).log := by
  refine ⟨[(version, body)], ?_⟩
  simp [log, append]

theorem WellFormed.retag (h : doc.WellFormed) : (doc.retag version tags).WellFormed where
  numbers := by rw [numbers_retag, length_versions_retag, h.numbers]
  active := by rw [numbers_retag]; exact h.active

/-- The number after the highest is the one the append log lacks. -/
theorem WellFormed.append (h : doc.WellFormed) :
    (doc.append (doc.versions.length + 1) body tags).WellFormed where
  numbers := by
    rw [numbers_append, h.numbers, versions_append, List.length_append, List.length_singleton,
      List.range'_concat]
    congr 2
    omega
  active := by
    rw [numbers_append]
    exact List.mem_append_left _ h.active

theorem WellFormed.first (hversions : doc.versions = []) (hactive : doc.activeVersion = 1) :
    (doc.append 1 body tags).WellFormed where
  numbers := by
    have hnil : doc.numbers = [] := by simp [Document.numbers, hversions]
    rw [numbers_append, hnil, versions_append, hversions]
    rfl
  active := by
    rw [numbers_append]
    exact List.mem_append_right _ (by simp [Document.append, hactive])

theorem WellFormed.max {highest : ℕ} (h : doc.WellFormed)
    (hmax : doc.numbers.max? = some highest) : highest = doc.versions.length := by
  have hpos : 0 < doc.versions.length := by
    have := List.length_pos_of_mem h.active
    rwa [Document.numbers, List.length_map] at this
  rw [h.numbers, List.max?_eq_some_iff] at hmax
  obtain ⟨hmem, hle⟩ := hmax
  rw [List.mem_range'_1] at hmem
  have hlast := hle doc.versions.length (by rw [List.mem_range'_1]; omega)
  omega

theorem WellFormed.point (h : doc.WellFormed) (hversion : version ∈ doc.numbers) :
    ({ doc with activeVersion := version } : Document β).WellFormed :=
  ⟨h.numbers, hversion⟩

end Document

/-- The tags of a version of the document `d` change, and nothing of another's. -/
def retagAt (d : DocId) (version : ℕ) (tags : List String) (d' : DocId) :
    Document β → Document β :=
  if d' = d then Document.retag version tags else id

section retagAt

variable {d d' : DocId} {version : ℕ} {tags : List String} {doc : Document β}

@[simp] theorem Document.log_retagAt : (retagAt d version tags d' doc).log = doc.log := by
  unfold retagAt
  split_ifs
  · exact log_retag
  · rfl

@[simp] theorem Document.numbers_retagAt :
    (retagAt d version tags d' doc).numbers = doc.numbers := by
  unfold retagAt
  split_ifs
  · exact numbers_retag
  · rfl

@[simp] theorem Document.length_versions_retagAt :
    (retagAt d version tags d' doc).versions.length = doc.versions.length := by
  unfold retagAt
  split_ifs
  · exact length_versions_retag
  · rfl

@[simp] theorem Document.activeVersion_retagAt :
    (retagAt d version tags d' doc).activeVersion = doc.activeVersion := by
  unfold retagAt
  split_ifs <;> rfl

theorem Document.retagAt_rename {newName : String} :
    retagAt d version tags d' { doc with name := newName } =
      { retagAt d version tags d' doc with name := newName } := by
  unfold retagAt
  split_ifs <;> rfl

theorem Document.WellFormed.retagAt (h : doc.WellFormed) :
    (retagAt d version tags d' doc).WellFormed := by
  unfold Versioning.retagAt
  split_ifs
  · exact h.retag
  · exact h

theorem Named.retagAt {row : Option (Document β)} {key : String × String} :
    Named (row.map (retagAt d version tags d')) key ↔ Named row key := by
  unfold Versioning.retagAt
  cases row with
  | none => simp [Named]
  | some doc => split_ifs <;> simp [Named, Document.retag]

theorem retagRows_committed {db : Rows TxId DocId (Document β)} (d' : DocId) :
    (retagRows db d version tags).committed d' =
      (db.committed d').map (retagAt d version tags d') := by
  unfold retagRows retagAt
  by_cases hd : d' = d
  · subst hd
    simp
  · simp [hd]

theorem retagRows_pending {db : Rows TxId DocId (Document β)} (t : TxId) (d' : DocId) :
    (retagRows db d version tags).pending t d' =
      (db.pending t d').map (Option.map (retagAt d version tags d')) := by
  unfold retagRows retagAt
  by_cases hd : d' = d
  · subst hd
    simp
  · simp [hd]

end retagAt

/-! ## The invariant -/

/-- What a transaction has in flight at a stage. -/
def Midway (db : Rows TxId DocId (Document β)) (t : TxId) : Stage β → Prop
  | .idle => True
  | .creating d _ _ =>
    ∃ doc, db.pending t d = some (some doc) ∧ doc.versions = [] ∧ doc.activeVersion = 1
  | .saving d _ _ => ∃ doc, db.pending t d = some (some doc)
  | .appending d version _ _ =>
    ∃ doc, db.pending t d = some (some doc) ∧ version = doc.versions.length + 1
  | .checking d _ => ∃ doc, db.pending t d = some (some doc)
  | .pointing d version => ∃ doc, db.pending t d = some (some doc) ∧ version ∈ doc.numbers
  | .tagging _ _ _ => True
  | .renamed d newName => (∃ doc, db.committed d = some doc ∧
      db.pending t d = some (some { doc with name := newName })) ∧
      ∀ d', d' ≠ d → db.pending t d' = none

structure Inv (s : State β) : Prop where
  exclusive : s.db.Exclusive
  freshCommitted : ∀ d, s.nextId ≤ d → s.db.committed d = none
  freshPending : ∀ t d, s.nextId ≤ d → s.db.pending t d = none
  uniqueCommitted : ∀ d d' key, Named (s.db.committed d) key → Named (s.db.committed d') key → d = d'
  unique : ∀ t d d' key, Named (s.db.view t d) key → Named (s.db.view t d') key → d = d'
  cross : ∀ t t' d d' row row' key, t ≠ t' → s.db.pending t d = some row →
    s.db.pending t' d' = some row' → Named row key → ¬ Named row' key
  committed : ∀ d doc, s.db.committed d = some doc → doc.WellFormed
  pending : ∀ t d doc, s.db.pending t d = some (some doc) →
    doc.WellFormed ∨ ∃ body tags, s.stage t = .creating d body tags
  extends_ : ∀ t d doc doc', s.db.committed d = some doc →
    s.db.pending t d = some (some doc') → doc.log <+: doc'.log
  midway : ∀ t, Midway s.db t (s.stage t)

/-- What a transaction has in flight is a matter of its own rows, and of the committed ones
under its locks. -/
theorem Midway.congr {db db' : Rows TxId DocId (Document β)} {t : TxId} {stage : Stage β}
    (h : Midway db t stage) (hpending : ∀ d, db'.pending t d = db.pending t d)
    (hcommitted : ∀ d, db.pending t d ≠ none → db'.committed d = db.committed d) :
    Midway db' t stage := by
  cases stage with
  | renamed d newName =>
    obtain ⟨⟨doc, hdoc, hrow⟩, hothers⟩ := h
    refine ⟨⟨doc, ?_, ?_⟩, fun d' hne => ?_⟩
    · rw [hcommitted d (by simp [hrow]), hdoc]
    · rw [hpending, hrow]
    · rw [hpending, hothers d' hne]
  | idle => trivial
  | tagging d version tags => trivial
  | _ => simpa only [Midway, hpending] using h

/-- Other tags leave a transaction where it stood. -/
theorem Midway.retagAt {db db' : Rows TxId DocId (Document β)} {t : TxId} {stage : Stage β}
    {d : DocId} {version : ℕ} {tags : List String} (h : Midway db t stage)
    (hcommitted : ∀ d', db'.committed d' = (db.committed d').map (retagAt d version tags d'))
    (hpending : ∀ d', db'.pending t d' =
      (db.pending t d').map (Option.map (Versioning.retagAt d version tags d'))) :
    Midway db' t stage := by
  have hrow : ∀ {d' doc}, db.pending t d' = some (some doc) →
      db'.pending t d' = some (some (Versioning.retagAt d version tags d' doc)) := by
    intro d' doc hdoc
    rw [hpending, hdoc]
    rfl
  cases stage with
  | idle => trivial
  | tagging d' version' tags' => trivial
  | creating d' body tags' =>
    obtain ⟨doc, hdoc, hversions, hactive⟩ := h
    exact ⟨_, hrow hdoc, List.eq_nil_of_length_eq_zero (by simp [hversions]), by simp [hactive]⟩
  | saving d' body tags' =>
    obtain ⟨doc, hdoc⟩ := h
    exact ⟨_, hrow hdoc⟩
  | appending d' version' body tags' =>
    obtain ⟨doc, hdoc, hversion⟩ := h
    exact ⟨_, hrow hdoc, by rw [hversion, Document.length_versions_retagAt]⟩
  | checking d' version' =>
    obtain ⟨doc, hdoc⟩ := h
    exact ⟨_, hrow hdoc⟩
  | pointing d' version' =>
    obtain ⟨doc, hdoc, hversion⟩ := h
    exact ⟨_, hrow hdoc, by rwa [Document.numbers_retagAt]⟩
  | renamed d' newName =>
    obtain ⟨⟨doc, hdoc, hrenamed⟩, hothers⟩ := h
    refine ⟨⟨_, by rw [hcommitted, hdoc]; rfl, ?_⟩, fun d'' hne => ?_⟩
    · rw [hrow hrenamed, Document.retagAt_rename]
    · rw [hpending, hothers d'' hne]
      rfl

namespace Inv

variable {s : State β} {t : TxId} {d : DocId} {doc : Document β} {key : String × String}

/-- A key that is active at a row no other transaction holds is free for that row. -/
theorem keyFree (h : Inv s) (hfree : s.db.FreeFor t d) (hnamed : Named (s.db.view t d) key) :
    s.KeyFree t d key := by
  refine ⟨fun d' hne hnamed' => hne (h.unique t d' d key hnamed' hnamed), ?_⟩
  intro t' d' row hne hrow hnamed'
  rcases s.db.view_cases t d with ⟨hnone, hview⟩ | hsome
  · have hview' : s.db.view t' d = s.db.committed d := Rows.view_of_none (hfree t' hne)
    have heq : d' = d := by
      refine h.unique t' d' d key ?_ ?_
      · rwa [Rows.view_of_pending hrow]
      · rwa [hview', ← hview]
    subst heq
    rw [hfree t' hne] at hrow
    exact absurd hrow (by simp)
  · exact h.cross t t' d d' _ row key (Ne.symm hne) hsome hrow hnamed hnamed'

/-- A document that a transaction sees is well formed unless that transaction is creating it. -/
theorem wellFormed (h : Inv s) (hrow : s.db.view t d = some doc)
    (hstage : ∀ body tags, s.stage t ≠ .creating d body tags) : doc.WellFormed := by
  rcases s.db.view_cases t d with ⟨_, hview⟩ | hsome
  · exact h.committed d doc (hview ▸ hrow)
  · rcases h.pending t d doc (hrow ▸ hsome) with hwf | ⟨body, tags, hcreating⟩
    · exact hwf
    · exact absurd hcreating (hstage body tags)

theorem lt_nextId (h : Inv s) (hrow : s.db.view t d = some doc) : d < s.nextId := by
  by_contra hlt
  have hle : s.nextId ≤ d := Nat.le_of_not_lt hlt
  rw [Rows.view_of_none (h.freshPending t d hle), h.freshCommitted d hle] at hrow
  exact absurd hrow (by simp)

/-- What a transaction sees of a document extends what is committed of it. -/
theorem log_prefix (h : Inv s) (hrow : s.db.view t d = some doc) {old : Document β}
    (hold : s.db.committed d = some old) : old.log <+: doc.log := by
  rcases s.db.view_cases t d with ⟨_, hview⟩ | hsome
  · obtain rfl : old = doc := Option.some.inj (by rw [← hold, ← hrow, hview])
    exact List.prefix_refl _
  · exact h.extends_ t d old doc hold (hrow ▸ hsome)

end Inv

/-! ## One statement -/

/-- The transaction `t` has written the row `d`, under its lock. -/
structure Wrote (s s' : State β) (t : TxId) (d : DocId) (row : Option (Document β)) : Prop where
  db : s'.db = s.db.write t d row
  nextId : s.nextId ≤ s'.nextId
  id : d < s'.nextId
  others : ∀ t', t' ≠ t → s'.stage t' = s.stage t'
  midway : Midway s'.db t (s'.stage t)
  free : s.db.FreeFor t d
  keyFree : ∀ key, Named row key → s.KeyFree t d key
  wellFormed : ∀ doc, row = some doc →
    doc.WellFormed ∨ ∃ body tags, s'.stage t = .creating d body tags
  creating : ∀ d' body tags, s.stage t = .creating d' body tags → d' = d
  log_prefix : ∀ doc doc', s.db.committed d = some doc → row = some doc' → doc.log <+: doc'.log
  known : d < s.nextId → s.db.view t d ≠ none

/-- The transaction `t` has only gone on to another stage. -/
structure Moved (s s' : State β) (t : TxId) : Prop where
  db : s'.db = s.db
  nextId : s'.nextId = s.nextId
  others : ∀ t', t' ≠ t → s'.stage t' = s.stage t'
  midway : Midway s'.db t (s'.stage t)
  creating : ∀ d body tags, s.stage t ≠ .creating d body tags

/-- The effect of a statement. -/
inductive Effect (s : State β) (t : TxId) (s' : State β) : Prop where
  | write (d : DocId) (row : Option (Document β)) (wrote : Wrote s s' t d row)
  | move (moved : Moved s s' t)
  | retag (d : DocId) (version : ℕ) (tags : List String) (doc : Document β)
      (stage : s.stage t = .tagging d version tags)
      (row : s.db.committed d = some doc) (kept : ∀ t', s.db.pending t' d ≠ some none)
      (eq : s' = s.set t (retagRows s.db d version tags) .idle)
  | commit (stage : ∀ d body tags, s.stage t ≠ .creating d body tags)
      (eq : s' = s.set t (s.db.commit t) .idle)
  | abort (eq : s' = s.set t (s.db.abort t) .idle)

@[simp] theorem set_db {s : State β} {t : TxId} {db : Rows TxId DocId (Document β)}
    {stage : Stage β} : (s.set t db stage).db = db := rfl

@[simp] theorem set_stage_self {s : State β} {t : TxId} {db : Rows TxId DocId (Document β)}
    {stage : Stage β} : (s.set t db stage).stage t = stage := by
  simp [State.set]

theorem set_stage_of_ne {s : State β} {t t' : TxId} {db : Rows TxId DocId (Document β)}
    {stage : Stage β} (h : t' ≠ t) : (s.set t db stage).stage t' = s.stage t' := by
  simp [State.set, h]

@[simp] theorem write_pending_self {db : Rows TxId DocId (Document β)} {t : TxId} {d : DocId}
    {row : Option (Document β)} : (db.write t d row).pending t d = some row := by
  simp [Rows.write_pending]

/-- A transaction that is not creating a document writes a row it sees, as a document that
extends it under its name. -/
theorem Wrote.update {s : State β} {t : TxId} {d : DocId} {doc doc' : Document β}
    {stage : Stage β} (h : Inv s) (hrow : s.db.view t d = some doc) (hfree : s.db.FreeFor t d)
    (hcreating : ∀ d' body tags, s.stage t = .creating d' body tags → d' = d)
    (hname : doc'.isActive = true → doc.isActive = true ∧ doc.kind = doc'.kind ∧ doc.name = doc'.name)
    (hwf : doc'.WellFormed) (hlog : doc.log <+: doc'.log)
    (hmid : Midway (s.db.write t d (some doc')) t stage) :
    Wrote s (s.set t (s.db.write t d (some doc')) stage) t d (some doc') where
  db := rfl
  nextId := le_refl _
  id := h.lt_nextId hrow
  others t' hne := set_stage_of_ne hne
  midway := by rw [set_stage_self]; exact hmid
  free := hfree
  keyFree := by
    rintro key ⟨doc'', heq, hactive, rfl⟩
    obtain rfl := Option.some.inj heq
    obtain ⟨hactive', hkind, hnamed⟩ := hname hactive
    exact h.keyFree hfree ⟨doc, hrow, hactive', by rw [hkind, hnamed]⟩
  wellFormed doc'' heq := .inl (Option.some.inj heq ▸ hwf)
  creating := hcreating
  log_prefix old doc'' hold heq := Option.some.inj heq ▸ (h.log_prefix hrow hold).trans hlog
  known _ := by simp [hrow]

/-- Every statement writes one row, moves on, retags, commits or rolls back. -/
theorem Step.effect {s s' : State β} {t : TxId} (h : Inv s) (hstep : Step s t s') :
    Effect s t s' := by
  have hmid := h.midway t
  cases hstep with
  | @insertDocument kind name body tags idle free =>
    refine .write s.nextId (some ⟨kind, name, 1, true, []⟩) ?_
    exact
      { db := rfl
        nextId := Nat.le_succ _
        id := Nat.lt_succ_self _
        others := fun t' hne => Function.update_of_ne hne _ _
        midway := by
          show Midway _ t (Function.update s.stage t (.creating s.nextId body tags) t)
          rw [Function.update_self]
          exact ⟨_, write_pending_self, rfl, rfl⟩
        free := fun t' _ => h.freshPending t' _ (le_refl _)
        keyFree := by
          rintro key ⟨doc, heq, -, rfl⟩
          obtain rfl := Option.some.inj heq
          exact free
        wellFormed := fun doc _ => .inr ⟨body, tags, Function.update_self _ _ _⟩
        creating := by
          intro d' body tags hstage
          rw [idle] at hstage
          exact absurd hstage (by simp)
        log_prefix := by
          intro doc doc' hdoc
          rw [h.freshCommitted _ (le_refl _)] at hdoc
          exact absurd hdoc (by simp)
        known := fun hlt => absurd hlt (Nat.lt_irrefl _) }
  | @insertFirst d body tags doc stage row new =>
    rw [stage] at hmid
    obtain ⟨doc', hpending, hversions, hactive⟩ := hmid
    obtain rfl : doc' = doc := Option.some.inj ((Rows.view_of_pending hpending).symm.trans row)
    refine .write d _ (.update h row (h.exclusive.freeFor (by simp [hpending])) ?_
      (fun ha => ⟨ha, rfl, rfl⟩)
      (.first hversions hactive) Document.log_prefix_append trivial)
    intro d' body' tags' hstage
    rw [stage] at hstage
    cases hstage
    rfl
  | @lockForSave d key doc body tags idle row named free =>
    refine .write d _ (.update h row free ?_ (fun ha => ⟨ha, rfl, rfl⟩) (h.wellFormed row ?_)
      (List.prefix_refl _) ⟨doc, write_pending_self⟩)
    · simp [idle]
    · simp [idle]
  | @readMax d body tags doc highest stage row read =>
    rw [stage] at hmid
    obtain ⟨doc', hpending⟩ := hmid
    obtain rfl : doc' = doc := Option.some.inj ((Rows.view_of_pending hpending).symm.trans row)
    have hwf : doc'.WellFormed := h.wellFormed row (by simp [stage])
    obtain rfl := hwf.max read
    refine .move ⟨rfl, rfl, fun t' hne => set_stage_of_ne hne, ?_, by simp [stage]⟩
    rw [set_stage_self]
    exact ⟨doc', hpending, rfl⟩
  | @insertVersion d version body tags doc stage row new =>
    rw [stage] at hmid
    obtain ⟨doc', hpending, hversion⟩ := hmid
    obtain rfl : doc' = doc := Option.some.inj ((Rows.view_of_pending hpending).symm.trans row)
    subst hversion
    have hwf : doc'.WellFormed := h.wellFormed row (by simp [stage])
    refine .write d _ (.update h row (h.exclusive.freeFor (by simp [hpending])) (by simp [stage])
      (fun ha => ⟨ha, rfl, rfl⟩) hwf.append Document.log_prefix_append ⟨_, write_pending_self, ?_⟩)
    simp
  | @lockForRollback d key doc version idle row named free =>
    refine .write d _ (.update h row free ?_ (fun ha => ⟨ha, rfl, rfl⟩) (h.wellFormed row ?_)
      (List.prefix_refl _) ⟨doc, write_pending_self⟩)
    · simp [idle]
    · simp [idle]
  | @findVersion d version doc stage row found =>
    rw [stage] at hmid
    obtain ⟨doc', hpending⟩ := hmid
    obtain rfl : doc' = doc := Option.some.inj ((Rows.view_of_pending hpending).symm.trans row)
    refine .move ⟨rfl, rfl, fun t' hne => set_stage_of_ne hne, ?_, by simp [stage]⟩
    rw [set_stage_self]
    exact ⟨doc', hpending, found⟩
  | @missVersion d version doc stage row missed =>
    refine .move ⟨rfl, rfl, fun t' hne => set_stage_of_ne hne, ?_, by simp [stage]⟩
    rw [set_stage_self]
    trivial
  | @point d version doc stage row =>
    rw [stage] at hmid
    obtain ⟨doc', hpending, hversion⟩ := hmid
    obtain rfl : doc' = doc := Option.some.inj ((Rows.view_of_pending hpending).symm.trans row)
    have hwf : doc'.WellFormed := h.wellFormed row (by simp [stage])
    exact .write d _ (.update h row (h.exclusive.freeFor (by simp [hpending])) (by simp [stage])
      (fun ha => ⟨ha, rfl, rfl⟩) (hwf.point hversion) (List.prefix_refl _) trivial)
  | @lockBody d key doc idle row named free =>
    refine .write d _ (.update h row free ?_ (fun ha => ⟨ha, rfl, rfl⟩) (h.wellFormed row ?_)
      (List.prefix_refl _) trivial)
    · simp [idle]
    · simp [idle]
  | @resolve d key version tags idle own named =>
    refine .move ⟨rfl, rfl, fun t' hne => set_stage_of_ne hne, ?_, by simp [idle]⟩
    rw [set_stage_self]
    trivial
  | @setTags d version tags doc stage row found kind kept =>
    exact .retag d version tags doc stage row kept rfl
  | @rename d key doc newName idle own row named kind free keyFree =>
    have hwf : doc.WellFormed := h.wellFormed row (by simp [idle])
    refine .write d _
      { db := rfl
        nextId := le_refl _
        id := h.lt_nextId row
        others := fun t' hne => set_stage_of_ne hne
        midway := ?_
        free := free
        keyFree := ?_
        wellFormed := fun doc' heq => .inl (Option.some.inj heq ▸ ⟨hwf.numbers, hwf.active⟩)
        creating := by simp [idle]
        log_prefix := fun old doc' hold heq => Option.some.inj heq ▸ h.log_prefix row hold
        known := fun _ => by simp [row] }
    · rw [set_stage_self]
      refine ⟨⟨doc, ?_, write_pending_self⟩, fun d' hne => ?_⟩
      · rw [← row]
        exact (Rows.view_of_none (own d)).symm
      · rw [set_db, Rows.write_pending, if_neg (fun hand => hne hand.2), own d']
    · rintro key ⟨doc', heq, -, rfl⟩
      obtain rfl := Option.some.inj heq
      exact keyFree
  | @softDelete d key doc idle row named kind free =>
    have hwf : doc.WellFormed := h.wellFormed row (by simp [idle])
    exact .write d _ (.update h row free (by simp [idle]) (fun ha => absurd ha (by simp))
      ⟨hwf.numbers, hwf.active⟩ (List.prefix_refl _) trivial)
  | @delete d key doc idle row named kind free =>
    exact .write d none
      { db := rfl
        nextId := le_refl _
        id := h.lt_nextId row
        others := fun t' hne => set_stage_of_ne hne
        midway := by rw [set_stage_self]; trivial
        free := free
        keyFree := by rintro key' ⟨doc', heq, -⟩; cases heq
        wellFormed := by simp
        creating := by simp [idle]
        log_prefix := by simp
        known := fun _ => by simp [row] }
  | commit ended =>
    refine .commit ?_ rfl
    rcases ended with idle | ⟨d, newName, renamed⟩
    · simp [idle]
    · simp [renamed]
  | abort => exact .abort rfl

/-! ## The invariant over a statement -/

namespace Inv

variable {s s' : State β} {t : TxId} {d : DocId}

theorem write {row : Option (Document β)} (h : Inv s) (hw : Wrote s s' t d row) : Inv s' := by
  have hcommitted : s'.db.committed = s.db.committed := by rw [hw.db]; rfl
  have hpending : ∀ t' d', s'.db.pending t' d' =
      if t' = t ∧ d' = d then some row else s.db.pending t' d' := by
    intro t' d'
    rw [hw.db, Rows.write_pending]
  have hview : ∀ t' d', s'.db.view t' d' = if t' = t ∧ d' = d then row else s.db.view t' d' := by
    intro t' d'
    rw [hw.db, Rows.view_write]
  refine ⟨?_, ?_, ?_, ?_, ?_, ?_, ?_, ?_, ?_, ?_⟩
  · rw [hw.db]
    exact h.exclusive.write hw.free
  · intro d' hd'
    rw [hcommitted]
    exact h.freshCommitted d' (hw.nextId.trans hd')
  · intro t' d' hd'
    have hne : d' ≠ d := fun heq => absurd hw.id (Nat.not_lt.mpr (heq ▸ hd'))
    rw [hpending, if_neg (fun hand => hne hand.2)]
    exact h.freshPending t' d' (hw.nextId.trans hd')
  · rw [hcommitted]
    exact h.uniqueCommitted
  · intro t' d₁ d₂ key h₁ h₂
    rw [hview] at h₁ h₂
    -- the written row is the only active one under its key
    by_cases ht : t' = t
    · subst ht
      by_cases hd₁ : d₁ = d <;> by_cases hd₂ : d₂ = d
      · rw [hd₁, hd₂]
      · rw [if_pos ⟨rfl, hd₁⟩] at h₁
        rw [if_neg (fun hand => hd₂ hand.2)] at h₂
        exact absurd h₂ ((hw.keyFree key h₁).1 d₂ hd₂)
      · rw [if_neg (fun hand => hd₁ hand.2)] at h₁
        rw [if_pos ⟨rfl, hd₂⟩] at h₂
        exact absurd h₁ ((hw.keyFree key h₂).1 d₁ hd₁)
      · rw [if_neg (fun hand => hd₁ hand.2)] at h₁
        rw [if_neg (fun hand => hd₂ hand.2)] at h₂
        exact h.unique t' d₁ d₂ key h₁ h₂
    · rw [if_neg (fun hand => ht hand.1)] at h₁ h₂
      exact h.unique t' d₁ d₂ key h₁ h₂
  · intro t₁ t₂ d₁ d₂ row₁ row₂ key hne h₁ h₂ hn₁ hn₂
    rw [hpending] at h₁ h₂
    by_cases hown₁ : t₁ = t ∧ d₁ = d
    · have hown₂ : ¬ (t₂ = t ∧ d₂ = d) := fun hand => hne (hown₁.1.trans hand.1.symm)
      rw [if_pos hown₁] at h₁
      rw [if_neg hown₂] at h₂
      obtain rfl := Option.some.inj h₁
      exact (hw.keyFree key hn₁).2 t₂ d₂ row₂ (hown₁.1 ▸ hne.symm) h₂ hn₂
    · rw [if_neg hown₁] at h₁
      by_cases hown₂ : t₂ = t ∧ d₂ = d
      · rw [if_pos hown₂] at h₂
        obtain rfl := Option.some.inj h₂
        exact (hw.keyFree key hn₂).2 t₁ d₁ row₁ (hown₂.1 ▸ hne) h₁ hn₁
      · rw [if_neg hown₂] at h₂
        exact h.cross t₁ t₂ d₁ d₂ row₁ row₂ key hne h₁ h₂ hn₁ hn₂
  · intro d' doc hdoc
    rw [hcommitted] at hdoc
    exact h.committed d' doc hdoc
  · intro t' d' doc hdoc
    rw [hpending] at hdoc
    by_cases hown : t' = t ∧ d' = d
    · rw [if_pos hown] at hdoc
      rw [hown.1, hown.2]
      exact hw.wellFormed doc (Option.some.inj hdoc)
    · rw [if_neg hown] at hdoc
      rcases h.pending t' d' doc hdoc with hwf | ⟨body, tags, hcreating⟩
      · exact .inl hwf
      · have hne : t' ≠ t := by
          rintro rfl
          exact hown ⟨rfl, hw.creating d' body tags hcreating⟩
        exact .inr ⟨body, tags, by rw [hw.others t' hne, hcreating]⟩
  · intro t' d' doc doc' hdoc hdoc'
    rw [hcommitted] at hdoc
    rw [hpending] at hdoc'
    by_cases hown : t' = t ∧ d' = d
    · rw [if_pos hown] at hdoc'
      rw [hown.2] at hdoc
      exact hw.log_prefix doc doc' hdoc (Option.some.inj hdoc')
    · rw [if_neg hown] at hdoc'
      exact h.extends_ t' d' doc doc' hdoc hdoc'
  · intro t'
    by_cases ht : t' = t
    · rw [ht]
      exact hw.midway
    · rw [hw.others t' ht]
      refine (h.midway t').congr (fun d' => ?_) (fun d' _ => by rw [hcommitted])
      rw [hpending, if_neg (fun hand => ht hand.1)]

theorem move (h : Inv s) (hm : Moved s s' t) : Inv s' where
  exclusive := hm.db ▸ h.exclusive
  freshCommitted d hd := by rw [hm.db]; exact h.freshCommitted d (hm.nextId ▸ hd)
  freshPending t' d hd := by rw [hm.db]; exact h.freshPending t' d (hm.nextId ▸ hd)
  uniqueCommitted := hm.db ▸ h.uniqueCommitted
  unique := hm.db ▸ h.unique
  cross := hm.db ▸ h.cross
  committed := hm.db ▸ h.committed
  pending := by
    intro t' d doc hdoc
    rw [hm.db] at hdoc
    rcases h.pending t' d doc hdoc with hwf | ⟨body, tags, hcreating⟩
    · exact .inl hwf
    · have hne : t' ≠ t := by
        rintro rfl
        exact hm.creating d body tags hcreating
      exact .inr ⟨body, tags, by rw [hm.others t' hne, hcreating]⟩
  extends_ := hm.db ▸ h.extends_
  midway := by
    intro t'
    by_cases ht : t' = t
    · rw [ht]
      exact hm.midway
    · rw [hm.others t' ht, hm.db]
      exact h.midway t'

/-- A transaction that ends holds no row; the others see what it leaves committed, apart from the
rows they hold. -/
theorem ended {committed : DocId → Option (Document β)} (h : Inv s)
    (hfresh : ∀ d, s.nextId ≤ d → committed d = none)
    (hunique : ∀ d d' key, Named (committed d) key → Named (committed d') key → d = d')
    (hview : ∀ t' d d' key, t' ≠ t → Named ((s.db.pending t' d).getD (committed d)) key →
      Named ((s.db.pending t' d').getD (committed d')) key → d = d')
    (hwf : ∀ d doc, committed d = some doc → doc.WellFormed)
    (hheld : ∀ t' d, t' ≠ t → s.db.pending t' d ≠ none → committed d = s.db.committed d) :
    Inv (s.set t ⟨committed, (s.db.abort t).pending⟩ .idle) := by
  have hown : ∀ t' d row, (s.db.abort t).pending t' d = some row →
      t' ≠ t ∧ s.db.pending t' d = some row := by
    intro t' d row hrow
    rw [Rows.abort_pending] at hrow
    by_cases ht : t' = t
    · simp [ht] at hrow
    · exact ⟨ht, by rwa [if_neg ht] at hrow⟩
  refine ⟨h.exclusive.abort, hfresh, ?_, hunique, ?_, ?_, hwf, ?_, ?_, ?_⟩
  · intro t' d hd
    show (s.db.abort t).pending t' d = none
    rw [Rows.abort_pending, h.freshPending t' d hd, ite_self]
  · intro t' d₁ d₂ key h₁ h₂
    change Named (((s.db.abort t).pending t' d₁).getD (committed d₁)) key at h₁
    change Named (((s.db.abort t).pending t' d₂).getD (committed d₂)) key at h₂
    rw [Rows.abort_pending] at h₁ h₂
    by_cases ht : t' = t
    · rw [if_pos ht] at h₁ h₂
      exact hunique d₁ d₂ key h₁ h₂
    · rw [if_neg ht] at h₁ h₂
      exact hview t' d₁ d₂ key ht h₁ h₂
  · intro t₁ t₂ d₁ d₂ row₁ row₂ key hne h₁ h₂
    exact h.cross t₁ t₂ d₁ d₂ row₁ row₂ key hne (hown t₁ d₁ row₁ h₁).2 (hown t₂ d₂ row₂ h₂).2
  · intro t' d doc hdoc
    obtain ⟨ht, hdoc⟩ := hown t' d _ hdoc
    rw [set_stage_of_ne ht]
    exact h.pending t' d doc hdoc
  · intro t' d doc doc' hdoc hdoc'
    obtain ⟨ht, hdoc'⟩ := hown t' d _ hdoc'
    have hsame : committed d = s.db.committed d := hheld t' d ht (by simp [hdoc'])
    exact h.extends_ t' d doc doc' (hsame ▸ hdoc) hdoc'
  · intro t'
    by_cases ht : t' = t
    · rw [ht, set_stage_self]
      trivial
    · rw [set_stage_of_ne ht]
      refine (h.midway t').congr (fun d => ?_) (fun d hd => hheld t' d ht hd)
      show (s.db.abort t).pending t' d = _
      rw [Rows.abort_pending, if_neg ht]

theorem abort (h : Inv s) : Inv (s.set t (s.db.abort t) .idle) :=
  h.ended h.freshCommitted h.uniqueCommitted (fun t' d d' key _ h₁ h₂ => h.unique t' d d' key h₁ h₂)
    h.committed (fun _ _ _ _ => rfl)

theorem commit (h : Inv s) (hstage : ∀ d body tags, s.stage t ≠ .creating d body tags) :
    Inv (s.set t (s.db.commit t) .idle) := by
  -- a row of `t` and one another transaction holds are not active under one key
  have hcross : ∀ t' d d' row key, t' ≠ t → s.db.pending t' d = some row →
      s.db.pending t' d' = none → Named row key → Named (s.db.view t d') key → d = d' := by
    intro t' d d' row key hne hrow hnone hnamed hnamed'
    rcases s.db.view_cases t d' with ⟨_, hview⟩ | hsome
    · refine h.unique t' d d' key ?_ ?_
      · rwa [Rows.view_of_pending hrow]
      · rwa [Rows.view_of_none hnone, ← hview]
    · exact absurd hnamed' (h.cross t' t d d' row _ key hne hrow hsome hnamed)
  refine h.ended ?_ (h.unique t) ?_ ?_ ?_
  · intro d hd
    rw [Rows.view_of_none (h.freshPending t d hd), h.freshCommitted d hd]
  · intro t' d₁ d₂ key hne h₁ h₂
    cases hp₁ : s.db.pending t' d₁ with
    | none =>
      rw [hp₁, Option.getD_none] at h₁
      cases hp₂ : s.db.pending t' d₂ with
      | none =>
        rw [hp₂, Option.getD_none] at h₂
        exact h.unique t d₁ d₂ key h₁ h₂
      | some row =>
        rw [hp₂, Option.getD_some] at h₂
        exact (hcross t' d₂ d₁ row key hne hp₂ hp₁ h₂ h₁).symm
    | some row =>
      rw [hp₁, Option.getD_some] at h₁
      cases hp₂ : s.db.pending t' d₂ with
      | none =>
        rw [hp₂, Option.getD_none] at h₂
        exact hcross t' d₁ d₂ row key hne hp₁ hp₂ h₁ h₂
      | some row' =>
        rw [hp₂, Option.getD_some] at h₂
        refine h.unique t' d₁ d₂ key ?_ ?_
        · rwa [Rows.view_of_pending hp₁]
        · rwa [Rows.view_of_pending hp₂]
  · intro d doc hdoc
    exact h.wellFormed hdoc (fun body tags => hstage d body tags)
  · intro t' d hne hheld
    exact Rows.view_of_none (h.exclusive.freeFor hheld t hne.symm)

/-! ## The invariant over a run -/

theorem retag {version : ℕ} {tags : List String} (h : Inv s)
    (hstage : ∀ d' body tags', s.stage t ≠ .creating d' body tags') :
    Inv (s.set t (retagRows s.db d version tags) .idle) := by
  set g : DocId → Document β → Document β := retagAt d version tags with hg
  set db := retagRows s.db d version tags with hdb
  have hcommitted : ∀ d', db.committed d' = (s.db.committed d').map (g d') := retagRows_committed
  have hpending : ∀ t' d', db.pending t' d' = (s.db.pending t' d').map (Option.map (g d')) :=
    retagRows_pending
  have hview : ∀ t' d', db.view t' d' = (s.db.view t' d').map (g d') := by
    intro t' d'
    unfold Rows.view
    rw [hcommitted, hpending]
    cases s.db.pending t' d' <;> rfl
  refine ⟨?_, ?_, ?_, ?_, ?_, ?_, ?_, ?_, ?_, ?_⟩
  · intro t₁ t₂ d' h₁ h₂
    refine h.exclusive t₁ t₂ d' (fun hnone => h₁ ?_) (fun hnone => h₂ ?_)
    · exact (hpending t₁ d').trans (by rw [hnone]; rfl)
    · exact (hpending t₂ d').trans (by rw [hnone]; rfl)
  · intro d' hd'
    exact (hcommitted d').trans (by rw [h.freshCommitted d' hd']; rfl)
  · intro t' d' hd'
    exact (hpending t' d').trans (by rw [h.freshPending t' d' hd']; rfl)
  · intro d₁ d₂ key h₁ h₂
    change Named (db.committed d₁) key at h₁
    change Named (db.committed d₂) key at h₂
    rw [hcommitted, Named.retagAt] at h₁ h₂
    exact h.uniqueCommitted d₁ d₂ key h₁ h₂
  · intro t' d₁ d₂ key h₁ h₂
    change Named (db.view t' d₁) key at h₁
    change Named (db.view t' d₂) key at h₂
    rw [hview, Named.retagAt] at h₁ h₂
    exact h.unique t' d₁ d₂ key h₁ h₂
  · intro t₁ t₂ d₁ d₂ row₁ row₂ key hne h₁ h₂
    rw [set_db, hpending, Option.map_eq_some_iff] at h₁ h₂
    obtain ⟨row₁', h₁, rfl⟩ := h₁
    obtain ⟨row₂', h₂, rfl⟩ := h₂
    rw [Named.retagAt, Named.retagAt]
    exact h.cross t₁ t₂ d₁ d₂ row₁' row₂' key hne h₁ h₂
  · intro d' doc hdoc
    rw [set_db, hcommitted, Option.map_eq_some_iff] at hdoc
    obtain ⟨doc', hdoc, rfl⟩ := hdoc
    exact (h.committed d' doc' hdoc).retagAt
  · intro t' d' doc hdoc
    rw [set_db, hpending, Option.map_eq_some_iff] at hdoc
    obtain ⟨row, hrow, hdoc⟩ := hdoc
    rw [Option.map_eq_some_iff] at hdoc
    obtain ⟨doc', rfl, rfl⟩ := hdoc
    rcases h.pending t' d' doc' hrow with hwf | ⟨body, tags', hcreating⟩
    · exact .inl hwf.retagAt
    · have hne : t' ≠ t := by
        rintro rfl
        exact hstage d' body tags' hcreating
      exact .inr ⟨body, tags', by rw [set_stage_of_ne hne, hcreating]⟩
  · intro t' d' doc doc' hdoc hdoc'
    rw [set_db, hcommitted, Option.map_eq_some_iff] at hdoc
    rw [set_db, hpending, Option.map_eq_some_iff] at hdoc'
    obtain ⟨doc, hdoc, rfl⟩ := hdoc
    obtain ⟨row, hrow, hdoc'⟩ := hdoc'
    rw [Option.map_eq_some_iff] at hdoc'
    obtain ⟨doc', rfl, rfl⟩ := hdoc'
    rw [Document.log_retagAt, Document.log_retagAt]
    exact h.extends_ t' d' doc doc' hdoc hrow
  · intro t'
    by_cases ht : t' = t
    · rw [ht, set_stage_self]
      trivial
    · rw [set_stage_of_ne ht]
      exact (h.midway t').retagAt hcommitted (hpending t')

theorem init : Inv (⟨.empty, 0, fun _ => .idle⟩ : State β) where
  exclusive := .empty
  freshCommitted _ _ := rfl
  freshPending _ _ _ := rfl
  uniqueCommitted := by rintro d d' key ⟨doc, heq, -⟩; cases heq
  unique := by rintro t d d' key ⟨doc, heq, -⟩; cases heq
  cross := by intro t t' d d' row row' key _ hrow; cases hrow
  committed := by intro d doc hdoc; cases hdoc
  pending := by intro t d doc hdoc; cases hdoc
  extends_ := by intro t d doc doc' hdoc; cases hdoc
  midway _ := trivial

theorem step (h : Inv s) (hstep : Step s t s') : Inv s' := by
  cases hstep.effect h with
  | write d row wrote => exact h.write wrote
  | move moved => exact h.move moved
  | retag d version tags doc stage row kept eq =>
    rw [eq]
    exact h.retag (by simp [stage])
  | commit stage eq =>
    rw [eq]
    exact h.commit stage
  | abort eq =>
    rw [eq]
    exact h.abort

theorem of_reachable (h : (store β).Reachable s) : Inv s := by
  refine h.invariant ?_ ?_
  · rintro s rfl
    exact init
  · exact fun s t s' hinv hstep => hinv.step hstep

end Inv

end TaiSkeleton.Versioning
