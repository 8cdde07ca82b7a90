import Mathlib.Data.List.Nodup
import Mathlib.Logic.Function.Basic

/-!
# Counting what a change touches

Where a change lets one element at most come to meet a predicate, or one at least cease to, the
count of those that meet it grows by one at most, or falls by one at least.
-/

namespace Lib

variable {α : Type} {l : List α} {p p' : α → Bool} {a : α}

theorem countP_le_succ (hnodup : l.Nodup) (h : ∀ x ∈ l, p' x = true → p x = true ∨ x = a) :
    l.countP p' ≤ l.countP p + 1 := by
  induction l with
  | nil => simp
  | cons x l ih =>
    rw [List.nodup_cons] at hnodup
    by_cases hx : x = a
    · -- this is the one: nothing else in the list has changed
      have hrest : l.countP p' ≤ l.countP p := by
        refine List.countP_mono_left fun y hy hp => ?_
        obtain hp | rfl := h y (List.mem_cons_of_mem _ hy) hp
        · exact hp
        · exact absurd (hx ▸ hy) hnodup.1
      rw [List.countP_cons, List.countP_cons]
      split_ifs <;> omega
    · have hrest := ih hnodup.2 fun y hy => h y (List.mem_cons_of_mem _ hy)
      have hfirst := h x List.mem_cons_self
      rw [List.countP_cons, List.countP_cons]
      split_ifs with hp' hp
      · omega
      · obtain hp'' | hx' := hfirst hp'
        · exact absurd hp'' hp
        · exact absurd hx' hx
      · omega
      · omega

theorem countP_succ_le (hmem : a ∈ l) (ha : p a = true)
    (h : ∀ x ∈ l, p' x = true → p x = true ∧ x ≠ a) : l.countP p' + 1 ≤ l.countP p := by
  induction l with
  | nil => cases hmem
  | cons x l ih =>
    have hle : l.countP p' ≤ l.countP p :=
      List.countP_mono_left fun y hy hp => (h y (List.mem_cons_of_mem _ hy) hp).1
    have hfirst := h x List.mem_cons_self
    rw [List.countP_cons, List.countP_cons]
    rcases List.mem_cons.mp hmem with rfl | hmem
    · rw [if_pos ha, if_neg fun hp => (hfirst hp).2 rfl]
      omega
    · have hrest := ih hmem fun y hy => h y (List.mem_cons_of_mem _ hy)
      split_ifs with hp' hp
      · omega
      · exact absurd (hfirst hp').1 hp
      · omega
      · omega

/-- Where one element comes to meet a predicate, the count grows by one. -/
theorem countP_eq_succ (hnodup : l.Nodup) (hmem : a ∈ l) (hbefore : p a = false)
    (hafter : p' a = true) (h : ∀ x, x ≠ a → p' x = p x) : l.countP p' = l.countP p + 1 := by
  refine Nat.le_antisymm (countP_le_succ (a := a) hnodup fun x _ hx => ?_)
    (countP_succ_le hmem hafter fun x _ hx => ?_)
  · by_cases hxa : x = a
    · exact .inr hxa
    · exact .inl (h x hxa ▸ hx)
  · have hxa : x ≠ a := by
      rintro rfl
      rw [hbefore] at hx
      cases hx
    exact ⟨(h x hxa).trans hx, hxa⟩

/-- One of a list comes to another value. -/
theorem countP_update [DecidableEq α] {β : Type} {f : α → β} {p : β → Bool} {b : β}
    (hnodup : l.Nodup) (hmem : a ∈ l) :
    l.countP (fun x => p (Function.update f a b x)) + (p (f a)).toNat =
      l.countP (fun x => p (f x)) + (p b).toNat := by
  have hothers : ∀ x, x ≠ a → p (Function.update f a b x) = p (f x) :=
    fun x hne => congrArg p (Function.update_of_ne hne b f)
  have hself : p (Function.update f a b a) = p b :=
    congrArg p (Function.update_self a b f)
  cases hbefore : p (f a) with
  | false =>
    cases hafter : p b with
    | false =>
      refine congrArg (· + 0) (List.countP_congr fun x _ => ?_)
      by_cases hx : x = a
      · rw [hx, hself, hafter, hbefore]
      · rw [hothers x hx]
    | true => exact countP_eq_succ hnodup hmem hbefore (hself.trans hafter) hothers
  | true =>
    cases hafter : p b with
    | false =>
      exact (countP_eq_succ hnodup hmem (hself.trans hafter) hbefore
        fun x hx => (hothers x hx).symm).symm
    | true =>
      refine congrArg (· + 1) (List.countP_congr fun x _ => ?_)
      by_cases hx : x = a
      · rw [hx, hself, hafter, hbefore]
      · rw [hothers x hx]

/-- Two predicates that no element meets together are counted apart. -/
theorem countP_or {q : α → Bool} (h : ∀ x ∈ l, ¬(p x = true ∧ q x = true)) :
    l.countP (fun x => p x || q x) = l.countP p + l.countP q := by
  induction l with
  | nil => rfl
  | cons x l ih =>
    have hrest := ih fun y hy => h y (List.mem_cons_of_mem _ hy)
    have hfirst := h x List.mem_cons_self
    simp only [List.countP_cons, hrest]
    cases hp : p x <;> cases hq : q x <;> simp_all <;> omega

end Lib
