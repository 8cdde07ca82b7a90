import Mathlib.Data.List.Infix

/-!
# Splitting at a separator

A list is split at a separator and joined again. An infix without the separator lies in one of
the parts.
-/

namespace Lib

variable {α : Type} {x : α}

theorem intercalate_cons_cons (a b : List α) (l : List (List α)) :
    [x].intercalate (a :: b :: l) = a ++ x :: [x].intercalate (b :: l) := by
  rw [List.intercalate_cons_cons, List.append_assoc]
  rfl

/-- Two joined parts, joined by the separator. -/
theorem intercalate_append {l₁ l₂ : List (List α)} (h₁ : l₁ ≠ []) (h₂ : l₂ ≠ []) :
    [x].intercalate (l₁ ++ l₂) = [x].intercalate l₁ ++ x :: [x].intercalate l₂ := by
  induction l₁ with
  | nil => exact absurd rfl h₁
  | cons a l₁ ih =>
    cases l₁ with
    | nil =>
      obtain ⟨b, l₂, rfl⟩ := List.exists_cons_of_ne_nil h₂
      rw [List.singleton_append, intercalate_cons_cons, List.intercalate_singleton]
    | cons b l₁ =>
      rw [List.cons_append, List.cons_append, intercalate_cons_cons, ← List.cons_append,
        ih (List.cons_ne_nil _ _), intercalate_cons_cons, List.append_assoc, List.cons_append]

theorem mem_intercalate {c : α} {l : List (List α)} (h : c ∈ [x].intercalate l) :
    c = x ∨ ∃ a ∈ l, c ∈ a := by
  induction l with
  | nil => exact absurd h List.not_mem_nil
  | cons a l ih =>
    cases l with
    | nil =>
      rw [List.intercalate_singleton] at h
      exact .inr ⟨a, by simp, h⟩
    | cons b l =>
      rw [intercalate_cons_cons, List.mem_append, List.mem_cons] at h
      rcases h with h | rfl | h
      · exact .inr ⟨a, by simp, h⟩
      · exact .inl rfl
      · refine (ih h).imp_right ?_
        rintro ⟨d, hd, hc⟩
        exact ⟨d, List.mem_cons_of_mem a hd, hc⟩

theorem infix_of_mem_intercalate {a : List α} {l : List (List α)} (h : a ∈ l) :
    a <:+: [x].intercalate l := by
  induction l with
  | nil => exact absurd h List.not_mem_nil
  | cons b l ih =>
    cases l with
    | nil =>
      rw [List.mem_singleton.mp h, List.intercalate_singleton]
    | cons d l =>
      rw [intercalate_cons_cons]
      rcases List.mem_cons.mp h with rfl | h
      · exact (List.prefix_append a _).isInfix
      · have hx : x :: [x].intercalate (d :: l) = [x] ++ [x].intercalate (d :: l) := rfl
        rw [hx, ← List.append_assoc]
        exact List.IsInfix.trans (ih h) (List.suffix_append _ _).isInfix

theorem infix_of_mem_splitOn [BEq α] [LawfulBEq α] {a l : List α} (h : a ∈ l.splitOn x) :
    a <:+: l := by
  have hinfix := infix_of_mem_intercalate (x := x) h
  rwa [List.intercalate_splitOn] at hinfix

theorem not_mem_of_mem_splitOn [BEq α] [LawfulBEq α] {l a : List α} (h : a ∈ l.splitOn x) :
    x ∉ a := by
  induction hn : l.length using Nat.strongRecOn generalizing l with
  | ind n ih =>
    by_cases hx : x ∈ l
    · obtain ⟨b, c, rfl, hb⟩ := List.eq_append_cons_of_mem hx
      rw [List.splitOn_append_cons_self_of_not_mem hb] at h
      rcases List.mem_cons.mp h with rfl | h
      · exact hb
      · refine ih c.length ?_ h rfl
        rw [← hn, List.length_append, List.length_cons]
        omega
    · rw [List.splitOn_eq_singleton hx] at h
      rw [List.mem_singleton.mp h]
      exact hx

/-- An infix of two parts and a separator between them that does not hold the separator lies in
one of the two. -/
theorem infix_append_cons {w a b : List α} (h : w <:+: a ++ x :: b) (hx : x ∉ w) :
    w <:+: a ∨ w <:+: b := by
  have hnil : ∀ l, l <+: x :: b → x ∉ l → l = [] := by
    intro l hl hxl
    cases l with
    | nil => rfl
    | cons c l =>
      rw [List.cons_prefix_cons] at hl
      exact absurd (hl.1 ▸ List.mem_cons_self) hxl
  rcases List.infix_append_iff.mp h with h | h | ⟨l₁, l₂, rfl, h₁, h₂⟩
  · exact .inl h
  · rcases List.infix_cons_iff.mp h with h | h
    · rw [hnil w h hx]
      exact .inl List.nil_infix
    · exact .inr h
  · rw [hnil l₂ h₂ fun hl => hx (List.mem_append_right l₁ hl), List.append_nil]
    exact .inl h₁.isInfix

/-- The first separator cuts a list in one way. -/
theorem append_cons_inj {a b c d : List α} (ha : x ∉ a) (hb : x ∉ b)
    (h : a ++ x :: c = b ++ x :: d) : a = b ∧ c = d := by
  induction a generalizing b with
  | nil =>
    cases b with
    | nil => exact ⟨rfl, List.tail_eq_of_cons_eq h⟩
    | cons y b =>
      rw [List.nil_append, List.cons_append, List.cons.injEq] at h
      exact absurd (h.1 ▸ List.mem_cons_self) hb
  | cons y a ih =>
    cases b with
    | nil =>
      rw [List.nil_append, List.cons_append, List.cons.injEq] at h
      exact absurd (h.1 ▸ List.mem_cons_self) ha
    | cons z b =>
      rw [List.cons_append, List.cons_append, List.cons.injEq] at h
      obtain ⟨hab, hcd⟩ := ih (fun hx => ha (List.mem_cons_of_mem y hx))
        (fun hx => hb (List.mem_cons_of_mem z hx)) h.2
      exact ⟨List.cons_eq_cons.mpr ⟨h.1, hab⟩, hcd⟩

/-- The last separator cuts a list in one way. -/
theorem append_cons_inj_right {a b c d : List α} (hc : x ∉ c) (hd : x ∉ d)
    (h : a ++ x :: c = b ++ x :: d) : a = b ∧ c = d := by
  have hreverse : c.reverse ++ x :: a.reverse = d.reverse ++ x :: b.reverse := by
    simpa using congrArg List.reverse h
  obtain ⟨hcd, hab⟩ := append_cons_inj (fun hx => hc (List.mem_reverse.mp hx))
    (fun hx => hd (List.mem_reverse.mp hx)) hreverse
  exact ⟨List.reverse_injective hab, List.reverse_injective hcd⟩

theorem infix_intercalate {w : List α} {l : List (List α)} (hx : x ∉ w) (hne : w ≠ [])
    (h : w <:+: [x].intercalate l) : ∃ a ∈ l, w <:+: a := by
  induction l with
  | nil => exact absurd (List.infix_nil.mp h) hne
  | cons a l ih =>
    cases l with
    | nil =>
      rw [List.intercalate_singleton] at h
      exact ⟨a, by simp, h⟩
    | cons b l =>
      rw [intercalate_cons_cons] at h
      rcases infix_append_cons h hx with h | h
      · exact ⟨a, by simp, h⟩
      · obtain ⟨c, hc, hw⟩ := ih h
        exact ⟨c, List.mem_cons_of_mem a hc, hw⟩

end Lib
