import Mathlib.Data.List.Basic

/-!
# Greedy matchers and the longest match

A `Matcher` says how many symbols at the start of the input it takes, if it applies; the
combinators take as much as they can from left to right. A lexer rule is a tag and a function
that says how many symbols it takes, `0` for none; `longest` picks the rule that takes most, the
first of them on a tie.
-/

namespace Lib

variable {α τ : Type}

/-! ## Matchers -/

/-- How many symbols at the start of an input to take, if any input fits. -/
abbrev Matcher (α : Type) := List α → Option ℕ

namespace Matcher

/-- One symbol that satisfies `p`. -/
def one (p : α → Bool) : Matcher α
  | [] => none
  | a :: _ => if p a then some 1 else none

/-- All symbols up to the first that does not satisfy `p`. -/
def many (p : α → Bool) : Matcher α := fun input => some (input.takeWhile p).length

/-- `m`, then `m'` on what it leaves. -/
def seq (m m' : Matcher α) : Matcher α := fun input =>
  (m input).bind fun n => (m' (input.drop n)).map (n + ·)

/-- `m` where it applies, and nothing elsewhere. -/
def opt (m : Matcher α) : Matcher α := fun input => some ((m input).getD 0)

/-- `m` where it applies, and `m'` elsewhere. -/
def orElse (m m' : Matcher α) : Matcher α := fun input => (m input).or (m' input)

/-- At least one symbol that satisfies `p`, and all that follow. -/
def many1 (p : α → Bool) : Matcher α := seq (one p) (many p)

/-- The word `w`. -/
def word [BEq α] (w : List α) : Matcher α := fun input =>
  if w.isPrefixOf input then some w.length else none

/-- The symbols taken, `0` where the matcher does not apply. -/
def length (m : Matcher α) (input : List α) : ℕ := (m input).getD 0

variable {p : α → Bool} {a : α} {rest : List α}

theorem one_cons (h : p a = true) : one p (a :: rest) = some 1 := if_pos h

theorem one_cons_of_not (h : p a = false) : one p (a :: rest) = none :=
  if_neg (by simp [h])

theorem many1_cons (h : p a = true) :
    many1 p (a :: rest) = some (1 + (rest.takeWhile p).length) := by
  simp [many1, seq, one_cons h, many]

theorem many1_cons_of_not (h : p a = false) : many1 p (a :: rest) = none := by
  simp [many1, seq, one_cons_of_not h]

/-- A sequence applies only where its first part does. -/
theorem seq_eq_none {m : Matcher α} {input : List α} (h : m input = none) (m' : Matcher α) :
    seq m m' input = none := by
  simp [seq, h]

theorem length_eq_zero {m : Matcher α} {input : List α} (h : m input = none) :
    m.length input = 0 := by
  simp [length, h]

/-- A sequence that starts with one symbol takes it and what the rest takes after it. -/
theorem one_seq_cons (h : p a = true) (m : Matcher α) :
    seq (one p) m (a :: rest) = (m rest).map (1 + ·) := by
  simp [seq, one_cons h]

theorem word_eq_some [BEq α] [LawfulBEq α] {w input : List α} (h : w <+: input) :
    word w input = some w.length :=
  if_pos (List.isPrefixOf_iff_prefix.mpr h)

theorem prefix_of_word [BEq α] [LawfulBEq α] {w input : List α}
    (h : (word w).length input ≠ 0) : w <+: input := by
  unfold length word at h
  split_ifs at h with hw
  · exact List.isPrefixOf_iff_prefix.mp hw
  · simp at h

end Matcher

/-- A run of symbols that satisfy `p` ends where the rest starts with one that does not. -/
theorem takeWhile_append_closed {p : α → Bool} {tail : List α}
    (h : ∀ a ∈ tail.head?, p a = false) (l : List α) :
    (l ++ tail).takeWhile p = l.takeWhile p := by
  induction l with
  | nil =>
    cases tail with
    | nil => rfl
    | cons a as => simp [h a rfl]
  | cons a as ih =>
    cases ha : p a with
    | false => simp [ha]
    | true => simp [ha, ih]

/-! ## Rules -/

/-- The rule that matches the most symbols of `input`, with their number. -/
def longest : List (τ × (List α → ℕ)) → List α → Option (τ × ℕ)
  | [], _ => none
  | (tag, len) :: rules, input =>
    match longest rules input with
    | none => if len input = 0 then none else some (tag, len input)
    | some (tag', n) => if n ≤ len input then some (tag, len input) else some (tag', n)

theorem longest_pos {rules : List (τ × (List α → ℕ))} {input : List α} {tag : τ} {n : ℕ}
    (h : longest rules input = some (tag, n)) : 0 < n := by
  induction rules generalizing tag n with
  | nil => simp [longest] at h
  | cons r rules ih =>
    obtain ⟨tag', len⟩ := r
    unfold longest at h
    split at h
    · split_ifs at h with hz
      obtain ⟨_, rfl⟩ := Prod.mk.inj (Option.some.inj h)
      omega
    · rename_i tag'' m hm
      have hpos := ih hm
      split_ifs at h
      · obtain ⟨_, rfl⟩ := Prod.mk.inj (Option.some.inj h)
        omega
      · obtain ⟨_, rfl⟩ := Prod.mk.inj (Option.some.inj h)
        exact hpos

/-- When every rule matches fewer than `N` symbols, so does the longest. -/
theorem longest_lt {rules : List (τ × (List α → ℕ))} {input : List α} {N : ℕ}
    (h : ∀ r ∈ rules, r.2 input < N) {tag : τ} {n : ℕ}
    (hl : longest rules input = some (tag, n)) : n < N := by
  induction rules generalizing tag n with
  | nil => simp [longest] at hl
  | cons r rules ih =>
    obtain ⟨tag', len⟩ := r
    have hr := h _ List.mem_cons_self
    unfold longest at hl
    split at hl
    · split_ifs at hl
      obtain ⟨_, rfl⟩ := Prod.mk.inj (Option.some.inj hl)
      exact hr
    · rename_i tag'' m hm
      split_ifs at hl
      · obtain ⟨_, rfl⟩ := Prod.mk.inj (Option.some.inj hl)
        exact hr
      · obtain ⟨_, rfl⟩ := Prod.mk.inj (Option.some.inj hl)
        exact ih (fun r hr => h r (List.mem_cons_of_mem _ hr)) hm

/-- A rule that no differently tagged rule equals wins. -/
theorem longest_eq {rules : List (τ × (List α → ℕ))} {input : List α} {tag : τ} {N : ℕ}
    (hpos : 0 < N) (hmem : ∃ r ∈ rules, r.2 input = N)
    (h : ∀ r ∈ rules, r.2 input < N ∨ r.1 = tag ∧ r.2 input = N) :
    longest rules input = some (tag, N) := by
  induction rules with
  | nil => simp at hmem
  | cons r rules ih =>
    obtain ⟨tag', len⟩ := r
    have hr := h _ List.mem_cons_self
    have hrules := fun r hr => h r (List.mem_cons_of_mem (tag', len) hr)
    unfold longest
    by_cases hin : ∃ r ∈ rules, r.2 input = N
    · rw [ih hin hrules]
      rcases hr with hlt | ⟨rfl, heq⟩
      · exact if_neg (by simpa using hlt)
      · have heq' : len input = N := heq
        simp [heq']
    · have hlt : ∀ r ∈ rules, r.2 input < N := fun r hr =>
        (hrules r hr).resolve_right fun he => hin ⟨r, hr, he.2⟩
      have htag : tag' = tag ∧ len input = N := by
        rcases hr with hlt' | he
        · obtain ⟨r, hr', he⟩ := hmem
          rcases List.mem_cons.mp hr' with rfl | hr'
          · exact absurd he (Nat.ne_of_lt hlt')
          · exact absurd he (Nat.ne_of_lt (hlt r hr'))
        · exact he
      obtain ⟨rfl, heq⟩ := htag
      cases hl : longest rules input with
      | none => simp [heq, Nat.ne_of_gt hpos]
      | some best =>
        obtain ⟨t, n⟩ := best
        have hn := longest_lt hlt hl
        simp [heq, Nat.le_of_lt hn]

end Lib
