import TaiSkeleton.Versioning.Invariant

/-!
# The history of a document

From a state to any later one a committed document only gains versions, or is gone for good
(`Follows`). With the invariant this gives what the store keeps (`store_kept`).
-/

namespace TaiSkeleton.Versioning

open Lib

variable {β : Type}

/-- The document is no more: its id is given out, and no transaction can commit it. -/
def Gone (s : State β) (d : DocId) : Prop :=
  d < s.nextId ∧ s.db.committed d = none ∧ ∀ t doc, s.db.pending t d ≠ some (some doc)

/-- A later state keeps every committed document with what was appended to it, or has deleted
it for good. -/
structure Follows (s s' : State β) : Prop where
  gone : ∀ d, Gone s d → Gone s' d
  kept : ∀ d doc, s.db.committed d = some doc →
    (∃ doc', s'.db.committed d = some doc' ∧ doc.log <+: doc'.log) ∨ Gone s' d

namespace Follows

variable {s s' s'' : State β} {t : TxId}

theorem refl (s : State β) : Follows s s :=
  ⟨fun _ h => h, fun _ doc hdoc => .inl ⟨doc, hdoc, List.prefix_refl _⟩⟩

theorem trans (h : Follows s s') (h' : Follows s' s'') : Follows s s'' where
  gone d hd := h'.gone d (h.gone d hd)
  kept := by
    intro d doc hdoc
    rcases h.kept d doc hdoc with ⟨doc', hdoc', hlog⟩ | hgone
    · rcases h'.kept d doc' hdoc' with ⟨doc'', hdoc'', hlog'⟩ | hgone
      · exact .inl ⟨doc'', hdoc'', hlog.trans hlog'⟩
      · exact .inr hgone
    · exact .inr (h'.gone d hgone)

theorem write {d : DocId} {row : Option (Document β)} (hw : Wrote s s' t d row) :
    Follows s s' where
  gone := by
    rintro d' ⟨hlt, hnone, hpending⟩
    refine ⟨lt_of_lt_of_le hlt hw.nextId, by rw [hw.db]; exact hnone, ?_⟩
    intro t' doc hdoc
    rw [hw.db, Rows.write_pending] at hdoc
    by_cases hown : t' = t ∧ d' = d
    · -- `t` writes only a row it sees
      obtain ⟨rfl, rfl⟩ := hown
      refine hw.known hlt ?_
      rcases s.db.view_cases t' d' with ⟨_, hview⟩ | hsome
      · rw [hview, hnone]
      · cases hv : s.db.view t' d' with
        | none => rfl
        | some doc' => exact absurd (hv ▸ hsome) (hpending t' doc')
    · rw [if_neg hown] at hdoc
      exact hpending t' doc hdoc
  kept d' doc hdoc := .inl ⟨doc, by rw [hw.db]; exact hdoc, List.prefix_refl _⟩

theorem retag {d : DocId} {version : ℕ} {tags : List String} :
    Follows s (s.set t (retagRows s.db d version tags) .idle) where
  gone := by
    rintro d' ⟨hlt, hnone, hpending⟩
    refine ⟨hlt, ?_, ?_⟩
    · exact (retagRows_committed d').trans (by rw [hnone]; rfl)
    · intro t' doc hdoc
      have hdoc' := (retagRows_pending t' d').symm.trans hdoc
      rw [Option.map_eq_some_iff] at hdoc'
      obtain ⟨row, hrow, hmap⟩ := hdoc'
      rw [Option.map_eq_some_iff] at hmap
      obtain ⟨doc', rfl, -⟩ := hmap
      exact hpending t' doc' hrow
  kept d' doc hdoc :=
    .inl ⟨_, (retagRows_committed d').trans (by rw [hdoc]; rfl), by simp⟩

theorem abort : Follows s (s.set t (s.db.abort t) .idle) where
  gone := by
    rintro d ⟨hlt, hnone, hpending⟩
    refine ⟨hlt, hnone, fun t' doc hdoc => ?_⟩
    rw [set_db, Rows.abort_pending] at hdoc
    split_ifs at hdoc
    exact hpending t' doc hdoc
  kept d doc hdoc := .inl ⟨doc, hdoc, List.prefix_refl _⟩

theorem commit (h : Inv s) : Follows s (s.set t (s.db.commit t) .idle) where
  gone := by
    rintro d ⟨hlt, hnone, hpending⟩
    refine ⟨hlt, ?_, fun t' doc hdoc => ?_⟩
    · show s.db.view t d = none
      rcases s.db.view_cases t d with ⟨_, hview⟩ | hsome
      · rw [hview, hnone]
      · cases hv : s.db.view t d with
        | none => rfl
        | some doc => exact absurd (hv ▸ hsome) (hpending t doc)
    · rw [set_db, Rows.commit_pending] at hdoc
      split_ifs at hdoc
      exact hpending t' doc hdoc
  kept := by
    intro d doc hdoc
    cases hv : s.db.view t d with
    | some doc' => exact .inl ⟨doc', hv, h.log_prefix hv hdoc⟩
    | none =>
      -- `t` has deleted the document, and held its row
      have hheld : s.db.pending t d ≠ none := by
        intro hnone
        rw [Rows.view_of_none hnone, hdoc] at hv
        cases hv
      have hlt : d < s.nextId := by
        by_contra hge
        rw [h.freshCommitted d (Nat.le_of_not_lt hge)] at hdoc
        cases hdoc
      refine .inr ⟨hlt, hv, fun t' doc' hdoc' => ?_⟩
      rw [set_db, Rows.commit_pending] at hdoc'
      by_cases ht : t' = t
      · simp [ht] at hdoc'
      · rw [if_neg ht, h.exclusive.freeFor hheld t' ht] at hdoc'
        cases hdoc'

theorem step (h : Inv s) (hstep : Step s t s') : Follows s s' := by
  cases hstep.effect h with
  | write d row wrote => exact write wrote
  | move moved =>
    refine ⟨?_, fun d doc hdoc => .inl ⟨doc, moved.db ▸ hdoc, List.prefix_refl _⟩⟩
    rintro d ⟨hlt, hnone, hpending⟩
    exact ⟨moved.nextId ▸ hlt, moved.db ▸ hnone, moved.db ▸ hpending⟩
  | retag d version tags doc stage row kept eq =>
    rw [eq]
    exact retag
  | commit stage eq =>
    rw [eq]
    exact commit h
  | abort eq =>
    rw [eq]
    exact abort

theorem of_run (h : Inv s) (hrun : (store β).Run s s') : Follows s s' :=
  hrun.relates refl (fun _ _ _ => trans) (fun _ _ _ => Inv.step) (fun _ _ _ => step) h

end Follows

/-! ## What the store keeps -/

/-- What holds of the committed rows of a state, and from it to a later one. -/
structure Kept (s s' : State β) : Prop where
  /-- A key has at most one active document. -/
  one_active : ∀ d d' key, Named (s.db.committed d) key → Named (s.db.committed d') key → d = d'
  /-- The versions are numbered from 1 to the number of the appended bodies. -/
  numbered : ∀ d doc, s.db.committed d = some doc →
    doc.numbers = List.range' 1 doc.versions.length
  /-- The pointer is at one of the versions. -/
  pointed : ∀ d doc, s.db.committed d = some doc → doc.activeVersion ∈ doc.numbers
  /-- Versions are only ever appended, and keep their bodies. -/
  appended : ∀ d doc doc', s.db.committed d = some doc → s'.db.committed d = some doc' →
    doc.log <+: doc'.log
  /-- A rename commits the document as it is under its new name, and nothing else. -/
  renamed : ∀ t d newName s'', s.stage t = .renamed d newName → Step s t s'' →
    s''.db.committed = s.db.committed ∨ ∃ doc, s.db.committed d = some doc ∧
      s''.db.committed = Function.update s.db.committed d (some { doc with name := newName })

/-- From `renamed` a transaction only commits or is rolled back. -/
theorem Step.of_renamed {s s' : State β} {t : TxId} {d : DocId} {newName : String}
    (hstep : Step s t s') (hstage : s.stage t = .renamed d newName) :
    s' = s.set t (s.db.commit t) .idle ∨ s' = s.set t (s.db.abort t) .idle := by
  cases hstep with
  | commit ended => exact .inl rfl
  | abort => exact .inr rfl
  | _ => simp_all

theorem Inv.renamed {s s' : State β} {t : TxId} {d : DocId} {newName : String} (h : Inv s)
    (hstage : s.stage t = .renamed d newName) (hstep : Step s t s') :
    s'.db.committed = s.db.committed ∨ ∃ doc, s.db.committed d = some doc ∧
      s'.db.committed = Function.update s.db.committed d (some { doc with name := newName }) := by
  rcases hstep.of_renamed hstage with rfl | rfl
  · have hmid := h.midway t
    rw [hstage] at hmid
    obtain ⟨⟨doc, hdoc, hrow⟩, hothers⟩ := hmid
    refine .inr ⟨doc, hdoc, ?_⟩
    funext d'
    show s.db.view t d' = _
    by_cases hd : d' = d
    · rw [hd, Function.update_self, Rows.view_of_pending hrow]
    · rw [Function.update_of_ne hd, Rows.view_of_none (hothers d' hd)]
  · exact .inl rfl

/-- Whatever the transactions do, and in whatever order their statements come: a key has one
active document, versions are numbered without a gap, the pointer is at one of them, no body
changes, and a rename moves the history as it is. -/
theorem store_kept {s s' : State β} (h : (store β).Reachable s) (hrun : (store β).Run s s') :
    Kept s s' := by
  have hinv : Inv s := .of_reachable h
  have hfollows : Follows s s' := .of_run hinv hrun
  refine ⟨hinv.uniqueCommitted, fun d doc hdoc => (hinv.committed d doc hdoc).numbers,
    fun d doc hdoc => (hinv.committed d doc hdoc).active, ?_,
    fun t d newName s'' hstage hstep => hinv.renamed hstage hstep⟩
  intro d doc doc' hdoc hdoc'
  rcases hfollows.kept d doc hdoc with ⟨doc'', hdoc'', hlog⟩ | ⟨_, hnone, _⟩
  · obtain rfl := Option.some.inj (hdoc''.symm.trans hdoc')
    exact hlog
  · rw [hnone] at hdoc'
    cases hdoc'

theorem keyFree_empty {t : TxId} {d : DocId} {key : String × String} :
    (⟨.empty, 0, fun _ => .idle⟩ : State β).KeyFree t d key := by
  refine ⟨?_, ?_⟩
  · rintro d' - ⟨doc, heq, -⟩
    cases heq
  · intro t' d' row _ hrow
    cases hrow

/-- A document is created with one version, a second is appended to it, and it is renamed. -/
theorem store_kept_preset : ∃ s s' : State ℕ, (store ℕ).Reachable s ∧ (store ℕ).Run s s' ∧
    s.db.committed 0 = some ⟨"preset", "draft", 1, true, [⟨1, 7, []⟩]⟩ ∧
    s'.db.committed 0 = some ⟨"preset", "daily", 2, true, [⟨1, 7, []⟩, ⟨2, 8, []⟩]⟩ ∧
    Kept s s' := by
  have first : (store ℕ).Reachable ⟨.empty, 0, fun _ => .idle⟩ := .of_init rfl
  have opened := first.tail (@Step.insertDocument ℕ _ 0 "preset" "draft" 7 [] rfl keyFree_empty)
  have created := (opened.tail (@Step.insertFirst ℕ _ 0 _ _ _ _ rfl rfl (by decide))).tail
    (@Step.commit ℕ _ 0 (.inl rfl))
  suffices ∃ s', (store ℕ).Run _ s' ∧
      s'.db.committed 0 = some ⟨"preset", "daily", 2, true, [⟨1, 7, []⟩, ⟨2, 8, []⟩]⟩ by
    obtain ⟨s', hrun, hs'⟩ := this
    exact ⟨_, s', created, hrun, rfl, hs', store_kept created hrun⟩
  refine ⟨_, .tail (.tail (.tail (.tail (.tail (.tail (.tail .refl
    (@Step.lockForSave ℕ _ 0 0 ("preset", "draft") _ 8 [] rfl rfl ⟨_, rfl, rfl, rfl⟩ ?_))
    (@Step.readMax ℕ _ 0 _ _ _ _ _ rfl rfl rfl))
    (@Step.insertVersion ℕ _ 0 _ _ _ _ _ rfl rfl (by decide)))
    (@Step.point ℕ _ 0 _ _ _ rfl rfl))
    (@Step.commit ℕ _ 0 (.inl rfl)))
    (@Step.rename ℕ _ 0 0 ("preset", "draft") _ "daily" rfl ?_ rfl ⟨_, rfl, rfl, rfl⟩ (by decide)
      ?_ ?_))
    (@Step.commit ℕ _ 0 (.inr ⟨0, "daily", rfl⟩)), rfl⟩
  · intro t' hne
    simp [Rows.write_pending, Rows.commit_pending, Rows.empty, hne]
  · intro d'
    simp [Rows.commit_pending]
  · intro t' hne
    simp [Rows.write_pending, Rows.commit_pending, Rows.empty, hne]
  · refine ⟨?_, ?_⟩
    · rintro d' hne ⟨doc, heq, -⟩
      simp [Rows.view_commit, Rows.view_write, hne] at heq
    · intro t' d' row hne hrow
      simp [Rows.write_pending, Rows.commit_pending, Rows.empty, hne] at hrow

end TaiSkeleton.Versioning
