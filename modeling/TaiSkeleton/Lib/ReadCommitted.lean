import Mathlib.Logic.Function.Basic
import Mathlib.Tactic.SplitIfs
import Mathlib.Tactic.ByContra

/-!
# Rows under READ COMMITTED

Rows under their keys, with what each transaction has written and not committed. A row that a
transaction has written, or read `FOR UPDATE`, stays locked by it until it ends, so no row is
written by two transactions at once (`Exclusive`). A transaction sees its own writes over the
committed rows (`view`); its commit makes that view the committed one.
-/

namespace Lib

/-- The rows of the committed state, and of each transaction those it holds: `some none` is a
deleted row. -/
structure Rows (τ κ ρ : Type) where
  committed : κ → Option ρ
  pending : τ → κ → Option (Option ρ)

namespace Rows

variable {τ κ ρ : Type}

/-- The rows as a transaction reads them. -/
def view (db : Rows τ κ ρ) (t : τ) (k : κ) : Option ρ := (db.pending t k).getD (db.committed k)

/-- No transaction but `t` holds the row. -/
def FreeFor (db : Rows τ κ ρ) (t : τ) (k : κ) : Prop := ∀ t', t' ≠ t → db.pending t' k = none

/-- No row is held by two transactions. -/
def Exclusive (db : Rows τ κ ρ) : Prop :=
  ∀ t t' k, db.pending t k ≠ none → db.pending t' k ≠ none → t = t'

/-- Every row of which there is none committed. -/
def empty : Rows τ κ ρ := ⟨fun _ => none, fun _ _ => none⟩

variable {db : Rows τ κ ρ} {t t' : τ} {k k' : κ} {row : Option ρ}

@[simp] theorem view_empty : (Rows.empty : Rows τ κ ρ).view t k = none := rfl

theorem view_of_pending (h : db.pending t k = some row) : db.view t k = row := by
  simp [view, h]

theorem view_of_none (h : db.pending t k = none) : db.view t k = db.committed k := by
  simp [view, h]

/-- A transaction reads a row as it is committed, or as it has written it. -/
theorem view_cases (db : Rows τ κ ρ) (t : τ) (k : κ) :
    db.pending t k = none ∧ db.view t k = db.committed k ∨
      db.pending t k = some (db.view t k) := by
  cases h : db.pending t k with
  | none => exact .inl ⟨rfl, view_of_none h⟩
  | some row => exact .inr (by rw [view_of_pending h])

theorem Exclusive.freeFor (h : db.Exclusive) (hk : db.pending t k ≠ none) : db.FreeFor t k := by
  intro t' hne
  by_contra hk'
  exact hne (h t' t k hk' hk)

theorem Exclusive.empty : (Rows.empty : Rows τ κ ρ).Exclusive := by
  intro t t' k h
  exact absurd rfl h

/-! ## The end of a transaction -/

variable [DecidableEq τ]

/-- A transaction ends with its writes dropped. -/
def abort (db : Rows τ κ ρ) (t : τ) : Rows τ κ ρ where
  committed := db.committed
  pending := Function.update db.pending t fun _ => none

/-- A transaction ends with its writes made the committed rows. -/
def commit (db : Rows τ κ ρ) (t : τ) : Rows τ κ ρ where
  committed := db.view t
  pending := Function.update db.pending t fun _ => none

@[simp] theorem abort_committed : (db.abort t).committed = db.committed := rfl

@[simp] theorem commit_committed : (db.commit t).committed = db.view t := rfl

theorem abort_pending : (db.abort t).pending t' k =
    if t' = t then none else db.pending t' k := by
  unfold abort
  by_cases ht : t' = t
  · subst ht
    simp
  · simp [ht]

theorem commit_pending : (db.commit t).pending t' k =
    if t' = t then none else db.pending t' k := abort_pending

theorem view_abort : (db.abort t).view t' k =
    if t' = t then db.committed k else db.view t' k := by
  unfold view
  rw [abort_pending, abort_committed]
  split_ifs <;> rfl

theorem view_commit : (db.commit t).view t' k = if db.pending t' k = none ∨ t' = t then
    db.view t k else db.view t' k := by
  unfold view
  rw [commit_pending, commit_committed]
  by_cases ht : t' = t
  · subst ht
    simp [view]
  · cases h : db.pending t' k <;> simp [ht, view]

theorem Exclusive.abort (h : db.Exclusive) : (db.abort t).Exclusive := by
  intro t₁ t₂ k h₁ h₂
  rw [abort_pending] at h₁ h₂
  by_cases ht₁ : t₁ = t
  · simp [ht₁] at h₁
  by_cases ht₂ : t₂ = t
  · simp [ht₂] at h₂
  rw [if_neg ht₁] at h₁
  rw [if_neg ht₂] at h₂
  exact h t₁ t₂ k h₁ h₂

theorem Exclusive.commit (h : db.Exclusive) : (db.commit t).Exclusive := h.abort

/-! ## A write -/

variable [DecidableEq κ]

/-- A transaction writes a row; a row read `FOR UPDATE` is written as it is. -/
def write (db : Rows τ κ ρ) (t : τ) (k : κ) (row : Option ρ) : Rows τ κ ρ where
  committed := db.committed
  pending := Function.update db.pending t (Function.update (db.pending t) k (some row))

@[simp] theorem write_committed : (db.write t k row).committed = db.committed := rfl

theorem write_pending : (db.write t k row).pending t' k' =
    if t' = t ∧ k' = k then some row else db.pending t' k' := by
  unfold write
  by_cases ht : t' = t
  · subst ht
    by_cases hk : k' = k
    · subst hk
      simp
    · simp [hk]
  · simp [ht]

theorem view_write : (db.write t k row).view t' k' =
    if t' = t ∧ k' = k then row else db.view t' k' := by
  unfold view
  rw [write_pending, write_committed]
  split_ifs <;> rfl

theorem Exclusive.write (h : db.Exclusive) (hfree : db.FreeFor t k) :
    (db.write t k row).Exclusive := by
  intro t₁ t₂ k' h₁ h₂
  rw [write_pending] at h₁ h₂
  by_cases hk : k' = k
  · subst hk
    have hown : ∀ t', (if t' = t ∧ k' = k' then some row else db.pending t' k') ≠ none →
        t' = t := by
      intro t' ht'
      by_contra hne
      exact ht' (by rw [if_neg (by simp [hne])]; exact hfree t' hne)
    exact (hown t₁ h₁).trans (hown t₂ h₂).symm
  · rw [if_neg (by simp [hk])] at h₁ h₂
    exact h t₁ t₂ k' h₁ h₂

end Rows

end Lib
