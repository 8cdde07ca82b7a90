import TaiSkeleton.ToolMeta.Folders

/-!
# The folders stay a forest

The table stays a forest as long as each new parent passes the cycle check when its row is written,
and no commit makes a row fail it that another transaction has already written.
-/

namespace TaiSkeleton.ToolMeta

open Lib Lib.Forest

variable {τ κ ν : Type} [DecidableEq τ] [DecidableEq κ]

/-- The cycle check passes. -/
def Passes (rows : κ → Option (Folder κ ν)) (folder newParent : κ) : Prop :=
  ∃ fuel, rejectCycle rows folder newParent fuel = some false

/-- A move or an import writes a row whose new parent passes the cycle check on the table as the
transaction reads it then. -/
def SettledWrite (s : State τ κ ν) (t : τ) : Call κ ν → Prop
  | .moving folder (some parent) => Passes (s.view t) folder parent
  | .importing ((id, row) :: _) => ∀ parent, row.parent = some parent → Passes (s.view t) id parent
  | _ => True

/-- A step that keeps the chains open: a new parent passes the cycle check when it is written, and
with a commit the rows still pass it that other transactions have written. -/
def Settled (s : State τ κ ν) : Act τ κ ν → Prop
  | .write t _ => SettledWrite s t (s.calls t)
  | .commit t => ∀ t', t' ≠ t → ∀ k row parent, s.rows.pending t' k = some (some row) →
    row.parent = some parent → Passes ((s.rows.commit t).view t') k parent
  | _ => True

/-- The table is a forest. -/
def IsForest (rows : κ → Option (Folder κ ν)) : Prop :=
  ∀ k row, rows k = some row → ReachesRoot rows k

/-! ## The invariant -/

/-- As each transaction reads the table all chains end; a transaction has written finitely many
rows, none before its call, and the committed table is consistent. -/
structure Inv (s : State τ κ ν) : Prop where
  ends : ∀ t k, Ends (parentOf (s.view t)) k
  committed : ∀ k, Ends (parentOf s.rows.committed) k
  held : ∀ t, ∃ held : Finset κ, ∀ k, k ∈ held ↔ s.rows.pending t k ≠ none
  consistent : State.Consistent s.rows.committed

omit [DecidableEq κ] in
theorem parentOf_eq_some {rows : κ → Option (Folder κ ν)} {k p : κ} :
    parentOf rows k = some p ↔ ∃ row, rows k = some row ∧ row.parent = some p :=
  Option.bind_eq_some_iff

theorem parentOf_update (rows : κ → Option (Folder κ ν)) (k : κ) (row : Option (Folder κ ν)) :
    parentOf (Function.update rows k row) =
      Function.update (parentOf rows) k (row.bind Folder.parent) := by
  funext k'
  by_cases hk : k' = k
  · subst hk
    simp [parentOf]
  · simp [parentOf, hk]

namespace Inv

variable {s s' : State τ κ ν} {t t' : τ} {call : Call κ ν}

omit [DecidableEq κ] in
theorem set (h : Inv s) : Inv (s.set t call) := ⟨h.ends, h.committed, h.held, h.consistent⟩

omit [DecidableEq κ] in
theorem abort (h : Inv s) : Inv (s.finish t (s.rows.abort t)) where
  ends t' k := by
    have hview : (s.finish t (s.rows.abort t)).view t' =
        if t' = t then s.rows.committed else s.view t' := by
      funext k
      show (s.rows.abort t).view t' k = _
      rw [Rows.view_abort]
      split_ifs <;> rfl
    rw [hview]
    split_ifs
    · exact h.committed k
    · exact h.ends t' k
  committed := h.committed
  held t' := by
    by_cases ht : t' = t
    · exact ⟨∅, fun k => by simp [State.finish, Rows.abort_pending, ht]⟩
    · obtain ⟨held, hheld⟩ := h.held t'
      exact ⟨held, fun k => by simpa [State.finish, Rows.abort_pending, ht] using hheld k⟩
  consistent := h.consistent

theorem commit (h : Inv s) (hconsistent : State.Consistent (s.view t))
    (hsettled : Settled s (.commit t)) : Inv (s.finish t (s.rows.commit t)) where
  ends t' k := by
    by_cases ht : t' = t
    · have hview : (s.finish t (s.rows.commit t)).view t' = s.view t := by
        funext k
        show (s.rows.commit t).view t' k = _
        rw [Rows.view_commit, if_pos (.inr ht)]
        rfl
      rw [hview]
      exact h.ends t k
    · obtain ⟨held, hheld⟩ := h.held t'
      have hsame : ∀ k, k ∉ held →
          parentOf ((s.rows.commit t).view t') k = parentOf (s.view t) k := by
        intro k hk
        have hnone : s.rows.pending t' k = none := by
          by_contra hne
          exact hk ((hheld k).mpr hne)
        unfold parentOf
        rw [Rows.view_commit, if_pos (.inl hnone)]
        rfl
      have hnot : ∀ k ∈ held, ∀ p, parentOf ((s.rows.commit t).view t') k = some p →
          ¬Climbs (parentOf ((s.rows.commit t).view t')) p k := by
        intro k hk p hp
        obtain ⟨row, hrow, hparent⟩ := parentOf_eq_some.mp hp
        obtain ⟨row', hpending⟩ := Option.ne_none_iff_exists'.mp ((hheld k).mp hk)
        have hview : s.rows.view t' k = some row := by
          rw [Rows.view_commit, if_neg (by simp [hpending, ht])] at hrow
          exact hrow
        rw [Rows.view_of_pending hpending] at hview
        subst hview
        obtain ⟨fuel, hfuel⟩ := hsettled t' ht k row p hpending hparent
        exact not_climbs_of_climb hfuel
      exact Ends.overlay (h.ends t) hsame hnot k
  committed := h.ends t
  held t' := by
    by_cases ht : t' = t
    · exact ⟨∅, fun k => by simp [State.finish, Rows.commit_pending, ht]⟩
    · obtain ⟨held, hheld⟩ := h.held t'
      exact ⟨held, fun k => by simpa [State.finish, Rows.commit_pending, ht] using hheld k⟩
  consistent := hconsistent

/-- A row is written whose new parent does not come back to it. -/
theorem put (h : Inv s) {id : κ} {row : Option (Folder κ ν)}
    (hnot : ∀ p, row.bind Folder.parent = some p → ¬Climbs (parentOf (s.view t)) p id) :
    Inv (s.put t id row call) where
  ends t' k := by
    have hview : (s.put t id row call).view t' =
        if t' = t then Function.update (s.view t) id row else s.view t' := by
      funext k
      show (s.rows.write t id row).view t' k = _
      rw [Rows.view_write]
      by_cases ht : t' = t
      · subst ht
        by_cases hk : k = id
        · subst hk
          simp
        · simp [hk, State.view]
      · simp [ht, State.view]
    rw [hview]
    split_ifs
    · rw [parentOf_update]
      exact Ends.update (h.ends t) hnot k
    · exact h.ends t' k
  committed := h.committed
  held t' := by
    obtain ⟨held, hheld⟩ := h.held t'
    by_cases ht : t' = t
    · subst ht
      refine ⟨insert id held, fun k => ?_⟩
      simp only [State.put, Rows.write_pending, Finset.mem_insert, hheld, true_and]
      by_cases hk : k = id <;> simp [hk]
    · exact ⟨held, fun k => by simpa [State.put, Rows.write_pending, ht] using hheld k⟩
  consistent := h.consistent

theorem write (h : Inv s) {id : κ} {row : Option (Folder κ ν)} {before : Call κ ν}
    (hwrites : Writes s t before id row call) (hsettled : SettledWrite s t before) :
    Inv (s.put t id row call) := by
  refine h.put fun p hp => ?_
  cases hwrites with
  | create hfresh hne _ =>
    intro hclimb
    have heq := hclimb.eq_of_childless (hfresh t).2
    subst heq
    exact hne hp
  | rename hrow _ =>
    exact (h.ends t _).not_climbs (parentOf_eq_some.mpr ⟨_, hrow, hp⟩)
  | move hrow _ =>
    have hparent : _ = some p := hp
    subst hparent
    obtain ⟨fuel, hfuel⟩ := hsettled
    exact not_climbs_of_climb hfuel
  | delete _ => cases hp
  | load _ =>
    obtain ⟨fuel, hfuel⟩ := hsettled p hp
    exact not_climbs_of_climb hfuel

theorem step {a : Act τ κ ν} (h : Inv s) (hsettled : Settled s a) (hstep : Step s a s') :
    Inv s' := by
  cases hstep with
  | create _ _ => exact h.set
  | rename _ _ => exact h.set
  | move _ _ => exact h.set
  | delete _ _ => exact h.set
  | load _ => exact h.set
  | read _ => exact h.set
  | write hwrites _ => exact h.write hwrites hsettled
  | commit _ hconsistent => exact h.commit hconsistent hsettled
  | abort => exact h.abort

theorem of_reachable (h : ((system τ κ ν).when Settled).Reachable s) : Inv s := by
  refine h.invariant (fun s hinit => ?_) fun s a s' hs hstep => ?_
  · rw [hinit]
    exact ⟨fun t k => .root rfl, fun k => .root rfl, fun t => ⟨∅, fun k => by simp [Rows.empty]⟩,
      fun k parent hparent => (nomatch hparent), fun k k' row hrow => (nomatch hrow)⟩
  · obtain ⟨hsettled, hstep⟩ := hstep
    exact hs.step hsettled hstep

end Inv

omit [DecidableEq κ] in
/-- Where all chains end and every parent is there, each chain reaches a root. -/
theorem isForest_of_ends {rows : κ → Option (Folder κ ν)} (hends : ∀ k, Ends (parentOf rows) k)
    (hconsistent : State.Consistent rows) : IsForest rows := by
  intro k row hrow
  have hends' := hends k
  induction hends' generalizing row with
  | root hroot =>
    unfold parentOf at hroot
    rw [hrow] at hroot
    exact .root hrow hroot
  | @step k p hstep _ ih =>
    obtain ⟨row', hp⟩ := Option.isSome_iff_exists.mp (hconsistent.1 _ p hstep)
    obtain ⟨row₁, hrow₁, hparent⟩ := parentOf_eq_some.mp hstep
    exact .step hrow₁ hparent (ih row' hp)

/-- The table before the first transaction. -/
def emptyTable : State ℕ ℕ ℕ := ⟨.empty, fun _ _ => False, fun _ => .idle⟩

/-- The table with one row written and committed by the first transaction. -/
def oneFolder (row : Folder ℕ ℕ) (before after : Call ℕ ℕ) : State ℕ ℕ ℕ :=
  let s := (emptyTable.set 0 before).put 0 1 (some row) after
  s.finish 0 (s.rows.commit 0)

theorem oneFolder_committed (row : Folder ℕ ℕ) (before after : Call ℕ ℕ) :
    (oneFolder row before after).rows.committed 1 = some row := rfl

theorem unlocked_empty (call : Call ℕ ℕ) (row : Option (Folder ℕ ℕ)) :
    (emptyTable.set 0 call).Unlocked 0 1 row := ⟨fun _ _ => rfl, .inr fun _ _ => id⟩

theorem admits_empty (call : Call ℕ ℕ) {row : Folder ℕ ℕ}
    (h : ∀ parent, row.parent = some parent → parent = 1) :
    (emptyTable.set 0 call).Admits 0 1 row :=
  ⟨fun parent hparent _ hne => absurd (h parent hparent) hne,
    fun _ _ => ⟨nofun, fun _ _ => nofun⟩⟩

theorem consistent_one (call call' : Call ℕ ℕ) {row : Folder ℕ ℕ}
    (h : ∀ parent, row.parent = some parent → parent = 1) :
    State.Consistent (((emptyTable.set 0 call).put 0 1 (some row) call').view 0) := by
  have hview : ((emptyTable.set 0 call).put 0 1 (some row) call').view 0 =
      Function.update (fun _ => none) 1 (some row) := by
    funext k
    show (Rows.empty.write 0 1 (some row)).view 0 k = _
    rw [Rows.view_write]
    by_cases hk : k = 1 <;> simp [hk]
  rw [hview]
  constructor
  · intro k parent hparent
    by_cases hk : k = 1
    · subst hk
      have hrow : row.parent = some parent := by simpa [parentOf] using hparent
      rw [h parent hrow]
      simp
    · simp [parentOf, hk] at hparent
  · intro k k' row' hk hk'
    by_cases h1 : k = 1
    · by_cases h2 : k' = 1
      · rw [h1, h2]
      · simp [h2] at hk'
    · simp [h1] at hk

omit [DecidableEq κ] in
theorem not_reachesRoot_of_self {rows : κ → Option (Folder κ ν)} {k : κ} {name : ν}
    (h : rows k = some ⟨name, some k⟩) : ¬ReachesRoot rows k := by
  intro hreaches
  induction hreaches with
  | root hrow hroot =>
    rw [h] at hrow
    obtain rfl := Option.some.inj hrow
    cases hroot
  | step hrow hparent _ ih =>
    rw [h] at hrow
    obtain rfl := Option.some.inj hrow
    obtain rfl := Option.some.inj hparent
    exact ih h

end TaiSkeleton.ToolMeta
