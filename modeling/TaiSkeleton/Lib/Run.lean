import Mathlib.Data.List.Basic

/-!
# Runs of a labelled transition system

A run takes one labelled step after another. An invariant is shown for the first states and for
one step, and then holds of every reachable state; a preorder that every step stays in relates
the two ends of every run.
-/

namespace Lib

/-- A transition system: its first states, and its steps under their labels. -/
structure System (σ α : Type) where
  init : σ → Prop
  step : σ → α → σ → Prop

namespace System

variable {σ α : Type}

/-- The system whose steps are only those that meet a condition. -/
def when (S : System σ α) (ok : σ → α → Prop) : System σ α where
  init := S.init
  step s a s' := ok s a ∧ S.step s a s'

/-- A run from one state to another. -/
inductive Run (S : System σ α) (s : σ) : σ → Prop where
  | refl : Run S s s
  | tail {s' s'' : σ} {a : α} (run : Run S s s') (last : S.step s' a s'') : Run S s s''

/-- The states at the end of the runs from a first state. -/
def Reachable (S : System σ α) (s : σ) : Prop := ∃ s₀, S.init s₀ ∧ S.Run s₀ s

variable {S : System σ α} {s s' s'' : σ} {a : α}

theorem Reachable.of_init (h : S.init s) : S.Reachable s := ⟨s, h, .refl⟩

theorem Reachable.tail (h : S.Reachable s) (last : S.step s a s') : S.Reachable s' := by
  obtain ⟨s₀, hinit, hrun⟩ := h
  exact ⟨s₀, hinit, hrun.tail last⟩

/-- A step under a given label. -/
theorem Reachable.take (h : S.Reachable s) (a : α) (last : S.step s a s') : S.Reachable s' :=
  h.tail last

theorem Run.single (first : S.step s a s') : S.Run s s' := .tail .refl first

theorem Run.trans (h : S.Run s s') (h' : S.Run s' s'') : S.Run s s'' := by
  induction h' with
  | refl => exact h
  | tail _ last ih => exact ih.tail last

theorem Reachable.run (h : S.Reachable s) (hrun : S.Run s s') : S.Reachable s' := by
  obtain ⟨s₀, hinit, hrun₀⟩ := h
  exact ⟨s₀, hinit, hrun₀.trans hrun⟩

/-- What every step keeps, a run keeps. -/
theorem Run.invariant {p : σ → Prop} (keeps : ∀ s a s', p s → S.step s a s' → p s')
    (h : S.Run s s') (hs : p s) : p s' := by
  induction h with
  | refl => exact hs
  | tail _ last ih => exact keeps _ _ _ ih last

/-- What holds at first and what every step keeps holds in every reachable state. -/
theorem Reachable.invariant {p : σ → Prop} (first : ∀ s, S.init s → p s)
    (keeps : ∀ s a s', p s → S.step s a s' → p s') (h : S.Reachable s) : p s := by
  obtain ⟨s₀, hinit, hrun⟩ := h
  exact hrun.invariant keeps (first s₀ hinit)

/-- A preorder that the steps between states of an invariant stay in relates the ends of a
run. -/
theorem Run.relates {p : σ → Prop} {rel : σ → σ → Prop} (hrefl : ∀ s, rel s s)
    (htrans : ∀ s s' s'', rel s s' → rel s' s'' → rel s s'')
    (keeps : ∀ s a s', p s → S.step s a s' → p s')
    (step : ∀ s a s', p s → S.step s a s' → rel s s')
    (h : S.Run s s') (hs : p s) : rel s s' := by
  suffices p s' ∧ rel s s' from this.2
  induction h with
  | refl => exact ⟨hs, hrefl _⟩
  | tail _ last ih =>
    obtain ⟨hinv, hrel⟩ := ih
    exact ⟨keeps _ _ _ hinv last, htrans _ _ _ hrel (step _ _ _ hinv last)⟩

/-- A run of the conditioned system is a run of the system. -/
theorem Run.of_when {ok : σ → α → Prop} (h : (S.when ok).Run s s') : S.Run s s' := by
  induction h with
  | refl => exact .refl
  | tail _ last ih => exact ih.tail last.2

theorem Reachable.of_when {ok : σ → α → Prop} (h : (S.when ok).Reachable s) :
    S.Reachable s := by
  obtain ⟨s₀, hinit, hrun⟩ := h
  exact ⟨s₀, hinit, hrun.of_when⟩

/-! ## Systems with a step function -/

/-- The steps of a partial function, under the condition that `ok` checks. -/
def guarded (next : σ → α → Option σ) (ok : σ → α → Bool) (s : σ) (a : α) : Option σ :=
  if ok s a then next s a else none

theorem step_of_guarded {f : σ → α → Option σ} {ok : σ → α → Bool}
    (h : guarded f ok s a = some s') :
    ok s a = true ∧ f s a = some s' := by
  simpa only [guarded, Option.ite_none_right_eq_some] using h

theorem Run.of_foldlM {f : σ → α → Option σ}
    (hstep : ∀ s a s', f s a = some s' → S.step s a s') {l : List α}
    (h : l.foldlM f s = some s') : S.Run s s' := by
  induction l generalizing s with
  | nil =>
    obtain rfl := Option.some.inj h
    exact .refl
  | cons a l ih =>
    rw [List.foldlM_cons] at h
    obtain ⟨s₁, hfirst, hrest⟩ := Option.bind_eq_some_iff.mp h
    exact (Run.single (hstep _ _ _ hfirst)).trans (ih hrest)

/-- A state that a list of labels leads to from a first state is reachable. -/
theorem Reachable.of_foldlM {f : σ → α → Option σ}
    (hstep : ∀ s a s', f s a = some s' → S.step s a s') (hinit : S.init s)
    {l : List α} {p : σ → Bool} (h : (l.foldlM f s).any p = true) :
    ∃ s', S.Reachable s' ∧ p s' = true := by
  cases hs' : l.foldlM f s with
  | none =>
    rw [hs'] at h
    cases h
  | some s' =>
    rw [hs'] at h
    exact ⟨s', ⟨s, hinit, .of_foldlM hstep hs'⟩, h⟩

end System

end Lib
