import Mathlib
import TaiSkeleton.Authz.TokenFree.JqLexer
import TaiSkeleton.Authz.TokenFree.Lexer

/-!
# The longest match, token by token

What jq's rules take where the scan's lexer reads a token. A rule applies only at the characters
it can start with, so everywhere but at a `.` the rules of a single class compete.
-/

namespace TaiSkeleton.Authz.TokenFree

open Lib

/-! ## The characters a rule starts with -/

/-- Whether a token of the class can start with the character. -/
def jqStarts : Lexeme → Char → Bool
  | .blank, c => [' ', '\n', '\t', '\r', '#'].contains c
  | .field, c => c == '.'
  | .number, c => c.isDigit || c == '.'
  | .ident, c => jqNameStart c
  | .variable, c => c == '$'
  | .format, c => c == '@'
  | .quoteOpen, c => c == '"'
  | .operator, c => (jqOperators.map fun w => w.toList.head?).contains (some c)
  | _, _ => false

theorem jqNumber_eq_none {c : Char} (rest : Text) (hd : c.isDigit = false) (hp : c ≠ '.') :
    jqNumber (c :: rest) = none := by
  refine Matcher.seq_eq_none ?_ _
  have hdot : (c == '.') = false := beq_eq_false_iff_ne.mpr hp
  simp only [jqMantissa, Matcher.orElse, Matcher.seq_eq_none (Matcher.many1_cons_of_not hd),
    Matcher.seq_eq_none (Matcher.one_cons_of_not (p := (· == '.')) hdot), Option.or]

/-- A rule takes nothing at a character it cannot start with. -/
theorem jqRules_eq_zero {c : Char} (rest : Text) :
    ∀ r ∈ jqRules, jqStarts r.1 c = false → r.2 (c :: rest) = 0 := by
  intro r hr hstart
  have hone : ∀ {p : Char → Bool} (m : Matcher Char), p c = false →
      (Matcher.seq (.one p) m).length (c :: rest) = 0 := fun m hp =>
    Matcher.length_eq_zero (Matcher.seq_eq_none (Matcher.one_cons_of_not hp) m)
  simp only [jqRules, List.mem_append, List.mem_cons, List.not_mem_nil, or_false,
    List.mem_map] at hr
  rcases hr with (rfl | rfl | rfl | rfl | rfl | rfl | rfl | rfl) | ⟨w, hw, rfl⟩
  · refine Matcher.length_eq_zero (Matcher.one_cons_of_not ?_)
    simp only [jqStarts, List.contains_eq_mem, decide_eq_false_iff_not, List.mem_cons,
      not_or] at hstart ⊢
    tauto
  · refine hone _ ?_
    simp only [jqStarts, List.contains_eq_mem, decide_eq_false_iff_not, List.mem_cons,
      not_or] at hstart
    simpa using hstart.2.2.2.2.1
  · exact hone _ hstart
  · simp only [jqStarts, Bool.or_eq_false_iff] at hstart
    exact Matcher.length_eq_zero (jqNumber_eq_none rest hstart.1 (by simpa using hstart.2))
  · exact hone _ hstart
  · exact hone _ hstart
  · exact hone _ hstart
  · exact Matcher.length_eq_zero (Matcher.one_cons_of_not hstart)
  · by_contra hne
    obtain ⟨tail, htail⟩ := Matcher.prefix_of_word hne
    have hnonempty : ∀ w ∈ jqOperators, w.toList ≠ [] := by decide
    cases hchars : w.toList with
    | nil => exact hnonempty w hw hchars
    | cons d ds =>
      obtain rfl : d = c := by
        rw [hchars] at htail
        exact (List.cons.inj htail).1
      simp only [jqStarts, List.contains_eq_mem, decide_eq_false_iff_not, List.mem_map,
        not_exists] at hstart
      exact hstart w ⟨hw, by rw [hchars]; rfl⟩

/-- Where the rules of the other classes cannot start or take less, the longest match is the
longest of one class. -/
theorem longest_of_class {c : Char} {rest : Text} {lexeme : Lexeme} {n : ℕ} (hn : 0 < n)
    (hothers : ∀ r ∈ jqRules, r.1 ≠ lexeme → jqStarts r.1 c = false ∨ r.2 (c :: rest) < n)
    (hle : ∀ r ∈ jqRules, r.1 = lexeme → r.2 (c :: rest) ≤ n)
    (hmem : ∃ r ∈ jqRules, r.1 = lexeme ∧ r.2 (c :: rest) = n) :
    longest jqRules (c :: rest) = some (lexeme, n) := by
  obtain ⟨r, hr, _, heq⟩ := hmem
  refine longest_eq hn ⟨r, hr, heq⟩ fun r' hr' => ?_
  by_cases htag : r'.1 = lexeme
  · rcases Nat.lt_or_eq_of_le (hle r' hr' htag) with hlt | heq'
    · exact .inl hlt
    · exact .inr ⟨htag, heq'⟩
  · left
    rcases hothers r' hr' htag with hstart | hlt
    · rw [jqRules_eq_zero rest r' hr' hstart]
      exact hn
    · exact hlt

/-- Blanks and operators apart, each class has one rule. -/
theorem jqRule_unique {r q : Lexeme × (Text → ℕ)} (hr : r ∈ jqRules) (hq : q ∈ jqRules)
    (htag : r.1 = q.1) (hblank : q.1 ≠ .blank) (hoperator : q.1 ≠ .operator) : r = q := by
  simp only [jqRules, List.mem_append, List.mem_cons, List.not_mem_nil, or_false,
    List.mem_map] at hr hq
  rcases hq with (rfl | rfl | rfl | rfl | rfl | rfl | rfl | rfl) | ⟨w', _, rfl⟩
  · exact absurd rfl hblank
  · exact absurd rfl hblank
  all_goals try exact absurd rfl hoperator
  all_goals
    rcases hr with (rfl | rfl | rfl | rfl | rfl | rfl | rfl | rfl) | ⟨w, _, rfl⟩
    all_goals first | rfl | exact absurd htag (by simp)

/-- The same for a class of a single rule. -/
theorem longest_of_rule {c : Char} {rest : Text} {lexeme : Lexeme} {m : Matcher Char} {n : ℕ}
    (hmem : (lexeme, m.length) ∈ jqRules) (hblank : lexeme ≠ .blank)
    (hoperator : lexeme ≠ .operator) (hm : m (c :: rest) = some n) (hn : 0 < n)
    (hothers : ∀ r ∈ jqRules, r.1 ≠ lexeme → jqStarts r.1 c = false ∨ r.2 (c :: rest) < n) :
    longest jqRules (c :: rest) = some (lexeme, n) := by
  have hlen : m.length (c :: rest) = n := by simp [Matcher.length, hm]
  refine longest_of_class hn hothers (fun r hr ht => ?_) ⟨_, hmem, rfl, hlen⟩
  rw [jqRule_unique hr hmem ht hblank hoperator]
  exact Nat.le_of_eq hlen

theorem munch_quote (rest : Text) : longest jqRules ('"' :: rest) = some (.quoteOpen, 1) := by
  refine longest_of_rule (m := .one (· == '"')) (by simp [jqRules]) (by decide) (by decide) rfl
    Nat.one_pos fun r _ hne => .inl ?_
  generalize r.1 = lexeme at hne
  cases lexeme <;> simp_all [jqStarts] <;> decide

theorem munch_blank (rest : Text) : longest jqRules (' ' :: rest) = some (.blank, 1) := by
  refine longest_of_class Nat.one_pos (fun r _ hne => .inl ?_) ?_
    ⟨(.blank, (Matcher.one fun c => [' ', '\n', '\t', '\r'].contains c).length), by simp [jqRules],
      rfl, rfl⟩
  · generalize r.1 = lexeme at hne
    cases lexeme <;> simp_all [jqStarts] <;> decide
  · intro r hr htag
    simp only [jqRules, List.mem_append, List.mem_cons, List.not_mem_nil, or_false,
      List.mem_map] at hr
    rcases hr with (rfl | rfl | rfl | rfl | rfl | rfl | rfl | rfl) | ⟨w, _, rfl⟩
    · exact Nat.le_refl 1
    · exact Nat.zero_le 1
    all_goals exact absurd htag (by simp)

/-! ## Disjoint character classes -/

theorem not_isDigit_of_isIdentStart {c : Char} (h : isIdentStart c = true) :
    c.isDigit = false := by
  by_contra hd
  simp only [Bool.not_eq_false] at hd
  simp only [isIdentStart, Bool.or_eq_true, beq_iff_eq] at h
  rcases h with h | rfl
  · simp only [Char.isDigit, Char.isAlpha, Char.isUpper, Char.isLower, Bool.or_eq_true,
      Bool.and_eq_true, decide_eq_true_eq, ge_iff_le, UInt32.le_iff_toNat_le] at h hd
    rcases h with h | h
    · exact absurd (Nat.le_trans h.1 hd.2) (by decide)
    · exact absurd (Nat.le_trans h.1 hd.2) (by decide)
  · exact absurd hd (by decide)

/-- A character of a class that a list has none of is not in the list. -/
theorem contains_eq_false {p : Char → Bool} {c : Char} (hc : p c = true) {chars : List Char}
    (h : ∀ d ∈ chars, p d = false) : chars.contains c = false := by
  simp only [List.contains_eq_mem, decide_eq_false_iff_not]
  intro hmem
  simp [h c hmem] at hc

/-- Only the rules of `lexeme` start at a character of the class `p`, if none of the single
characters that start another rule is in the class, and no digit or name character is. -/
theorem jqStarts_eq_false {p : Char → Bool} {c : Char} (hc : p c = true)
    (hsingle : [' ', '\n', '\t', '\r', '#', '.', '$', '@', '"'].all (fun d => !p d) = true)
    (hoperators : jqOperators.all (fun w => w.toList.head?.all fun d => !p d) = true)
    {lexeme' : Lexeme} (hnumber : lexeme' = .number → c.isDigit = false)
    (hident : lexeme' = .ident → jqNameStart c = false) : jqStarts lexeme' c = false := by
  have h : ∀ d ∈ [' ', '\n', '\t', '\r', '#', '.', '$', '@', '"'], p d = false := fun d hd => by
    simpa using List.all_eq_true.mp hsingle d hd
  have hne : ∀ d ∈ [' ', '\n', '\t', '\r', '#', '.', '$', '@', '"'], (c == d) = false := by
    intro d hd
    refine beq_eq_false_iff_ne.mpr fun he => ?_
    rw [he, h d hd] at hc
    exact Bool.false_ne_true hc
  cases lexeme' with
  | blank => exact contains_eq_false hc fun d hd => h d (by simp at hd ⊢; tauto)
  | field => exact hne '.' (by decide)
  | number => simp [jqStarts, hnumber rfl, hne '.' (by decide)]
  | ident => exact hident rfl
  | «variable» => exact hne '$' (by decide)
  | format => exact hne '@' (by decide)
  | quoteOpen => exact hne '"' (by decide)
  | operator =>
    simp only [jqStarts, List.contains_eq_mem, decide_eq_false_iff_not, List.mem_map, not_exists]
    rintro w ⟨hw, hhead⟩
    have hall := List.all_eq_true.mp hoperators w hw
    simp [hhead, hc] at hall
  | quoteClose => rfl
  | holeOpen => rfl
  | holeClose => rfl

theorem not_dot_of_isIdentStart {d : Char} (hd : isIdentStart d = true) : d ≠ '.' := by
  rintro rfl
  exact absurd hd (by decide)

/-! ## Operators -/

theorem operator_rule {r : Lexeme × (Text → ℕ)} (hr : r ∈ jqRules) (htag : r.1 = .operator) :
    ∃ w ∈ jqOperators, r = (.operator, (Matcher.word w.toList).length) := by
  simp only [jqRules, List.mem_append, List.mem_cons, List.not_mem_nil, or_false,
    List.mem_map] at hr
  rcases hr with (rfl | rfl | rfl | rfl | rfl | rfl | rfl | rfl) | ⟨w, hw, rfl⟩
  all_goals first | exact ⟨w, hw, rfl⟩ | exact absurd htag (by simp)

/-- After `$` or `.` an operator takes no more than that, but for `..`. -/
theorem operator_le_one {c d : Char} (hc : c = '$' ∨ c = '.') (hd : d ≠ '.') (rest : Text)
    (r : Lexeme × (Text → ℕ)) (hr : r ∈ jqRules) (htag : r.1 = .operator) :
    r.2 (c :: d :: rest) ≤ 1 := by
  obtain ⟨w, hw, rfl⟩ := operator_rule hr htag
  have hshort : ∀ w ∈ jqOperators, w.toList.length ≤ 1 ∨
      w.toList.head? ≠ some '$' ∧ w.toList.head? ≠ some '.' ∨ w.toList[1]? = some '.' := by
    decide
  by_cases hpre : w.toList <+: c :: d :: rest
  · have hlen : (Matcher.word w.toList).length (c :: d :: rest) = w.toList.length := by
      simp [Matcher.length, Matcher.word_eq_some hpre]
    show (Matcher.word w.toList).length (c :: d :: rest) ≤ 1
    rw [hlen]
    obtain ⟨tail, htail⟩ := hpre
    by_contra hlong
    rcases hshort w hw with h | ⟨h₁, h₂⟩ | h
    · exact hlong h
    · cases hchars : w.toList with
      | nil => simp [hchars] at hlong
      | cons a as =>
        rw [hchars] at htail h₁ h₂
        obtain ⟨rfl, _⟩ := List.cons.inj htail
        rcases hc with rfl | rfl
        · exact h₁ rfl
        · exact h₂ rfl
    · have hget : (w.toList ++ tail)[1]? = some d := by rw [htail]; rfl
      rw [List.getElem?_append_left (by omega), h] at hget
      exact hd (Option.some.inj hget).symm
  · show (Matcher.word w.toList).length (c :: d :: rest) ≤ 1
    by_contra hne
    exact hpre (Matcher.prefix_of_word (by omega))

/-- The first operator of the table that fits is the longest that fits. -/
theorem operatorAt_longest {input : Text} {op : String} (h : operatorAt input = some op)
    {w : String} (hw : w ∈ jqOperators) (hpre : w.toList <+: input) :
    w.toList.length ≤ op.toList.length := by
  obtain ⟨hop, as, bs, hsplit, has⟩ := List.find?_eq_some_iff_append.mp h
  have hop' : op.toList <+: input := List.isPrefixOf_iff_prefix.mp hop
  have hsub : ∀ w ∈ jqOperators, w = "$" ∨ w ∈ operators := by decide
  have hpos : ∀ o ∈ operators, 1 ≤ o.toList.length := by decide
  have hmem : op ∈ operators := List.mem_of_find?_eq_some h
  rcases hsub w hw with rfl | hw'
  · exact hpos op hmem
  -- An earlier operator of the table is never a proper beginning of a later one.
  have hpair : operators.Pairwise fun a b => ¬ (a.toList <+: b.toList ∧ a ≠ b) := by
    decide +kernel
  by_contra hlong
  have hproper : op.toList <+: w.toList := List.prefix_of_prefix_length_le hop' hpre (by omega)
  rw [hsplit] at hw' hpair
  rcases List.mem_append.mp hw' with hin | hin
  · have hfalse := has w hin
    simp [List.isPrefixOf_iff_prefix.mpr hpre] at hfalse
  · rcases List.mem_cons.mp hin with rfl | hin
    · exact hlong (Nat.le_refl _)
    · have hrel := (List.pairwise_cons.mp (List.pairwise_append.mp hpair).2.1).1 w hin
      refine hrel ⟨hproper, fun he => hlong ?_⟩
      exact Nat.le_of_eq (congrArg String.length he.symm)

theorem jqNumber_dot {rest : Text} (h : ∀ d ∈ rest.head?, d.isDigit = false) :
    jqNumber ('.' :: rest) = none := by
  have hsecond : (Matcher.many1 Char.isDigit) rest = none := by
    cases rest with
    | nil => rfl
    | cons d rest => exact Matcher.many1_cons_of_not (h d rfl)
  have hfraction : (Matcher.seq (.one (· == '.')) (.many1 Char.isDigit)) ('.' :: rest) = none := by
    rw [Matcher.one_seq_cons (by rfl), hsecond]
    rfl
  refine Matcher.seq_eq_none ?_ _
  simp only [jqMantissa, Matcher.orElse, hfraction,
    Matcher.seq_eq_none (Matcher.many1_cons_of_not (show Char.isDigit '.' = false by decide)),
    Option.or]

theorem jqField_dot {rest : Text} (h : ∀ d ∈ rest.head?, isIdentStart d = false) :
    (Matcher.seq (.one (· == '.')) jqName) ('.' :: rest) = none := by
  have hname : jqName rest = none := by
    cases rest with
    | nil => rfl
    | cons d rest =>
      exact Matcher.seq_eq_none (Matcher.one_cons_of_not (show jqNameStart d = false from h d rfl)) _
  rw [Matcher.one_seq_cons (by rfl), hname]
  rfl

theorem munch_operator {c : Char} {rest : Text} {op : String}
    (hop : operatorAt (c :: rest) = some op)
    (hdot : c = '.' → ∀ d ∈ rest.head?, isIdentStart d = false ∧ d.isDigit = false) :
    longest jqRules (c :: rest) = some (.operator, op.length) := by
  have hmem : op ∈ operators := List.mem_of_find?_eq_some hop
  have hpre : op.toList <+: c :: rest :=
    List.isPrefixOf_iff_prefix.mp (by simpa using List.find?_some hop)
  have hsub : ∀ o ∈ operators, o ∈ jqOperators ∧ 0 < o.length := by decide
  have hlen : (Matcher.word op.toList).length (c :: rest) = op.length := by
    simp [Matcher.length, Matcher.word_eq_some hpre, String.length_toList]
  refine longest_of_class (hsub op hmem).2 ?_ ?_
    ⟨(.operator, (Matcher.word op.toList).length), ?_, rfl, hlen⟩
  · intro r hr hne
    by_cases hc : c = '.'
    · subst hc
      have hpos := (hsub op hmem).2
      have hfield := Matcher.length_eq_zero (jqField_dot fun d hd => (hdot rfl d hd).1)
      have hnumber := Matcher.length_eq_zero (jqNumber_dot fun d hd => (hdot rfl d hd).2)
      by_cases hf : r.1 = .field
      · right
        rw [jqRule_unique hr (q := (.field, (Matcher.seq (.one (· == '.')) jqName).length))
          (by simp [jqRules]) hf (by decide) (by decide)]
        simp only [hfield]
        exact hpos
      by_cases hn : r.1 = .number
      · right
        rw [jqRule_unique hr (q := (.number, jqNumber.length)) (by simp [jqRules]) hn
          (by decide) (by decide)]
        simp only [hnumber]
        exact hpos
      · left
        generalize r.1 = lexeme at hne hf hn
        cases lexeme <;> simp_all [jqStarts]
        decide
    · left
      have hstarts : ∀ o ∈ operators, o.toList.head?.all (fun d => d == '.' || [Lexeme.field,
          .number, .ident, .variable, .format, .quoteOpen, .quoteClose, .holeOpen, .holeClose,
          .blank].all fun l => !jqStarts l d) = true := by
        decide +kernel
      have hhead : op.toList.head? = some c := by
        cases hchars : op.toList with
        | nil =>
          have hnil := (hsub op hmem).2
          rw [← String.length_toList, hchars] at hnil
          exact absurd hnil (by decide)
        | cons a as =>
          rw [hchars] at hpre
          rw [(List.cons_prefix_cons.mp hpre).1]
          rfl
      have hall := hstarts op hmem
      rw [hhead, Option.all_some, beq_eq_false_iff_ne.mpr hc, Bool.false_or] at hall
      have hin : r.1 ∈ [Lexeme.field, .number, .ident, .variable, .format, .quoteOpen, .quoteClose,
          .holeOpen, .holeClose, .blank] := by
        generalize r.1 = lexeme at hne
        cases lexeme <;> simp_all
      simpa using List.all_eq_true.mp hall r.1 hin
  · intro r hr htag
    obtain ⟨w, hw, rfl⟩ := operator_rule hr htag
    show (Matcher.word w.toList).length (c :: rest) ≤ op.length
    by_cases hw' : w.toList <+: c :: rest
    · simpa [Matcher.length, Matcher.word_eq_some hw', String.length_toList] using
        operatorAt_longest hop hw hw'
    · by_contra hne
      exact hw' (Matcher.prefix_of_word (by omega))
  · have hin := (hsub op hmem).1
    simp only [jqRules, List.mem_append, List.mem_map]
    exact .inr ⟨op, hin, rfl⟩

/-! ## Names -/

theorem fractionLength_le (l : Text) : fractionLength l ≤ l.length := by
  unfold fractionLength
  split
  · split_ifs
    · rename_i point digit rest _
      have := (List.takeWhile_prefix Char.isDigit (l := digit :: rest)).length_le
      simp only [List.length_cons] at this ⊢
      omega
    · omega
  · omega

theorem nameLength_pos {d : Char} (hd : isIdentStart d = true) (window : Text) :
    0 < nameLength (d :: window) := by
  simp [nameLength, isIdentChar, hd]

section

variable {c d : Char} {window tail : Text} (hclosed : ∀ a ∈ tail.head?, a = ')')

include hclosed

theorem takeWhile_window {p : Char → Bool} (hp : p ')' = false) (l : Text) :
    (l ++ tail).takeWhile p = l.takeWhile p :=
  takeWhile_append_closed (fun a ha => by rw [hclosed a ha, hp]) l

theorem jqName_window (hd : isIdentStart d = true) :
    jqName (d :: (window ++ tail)) = some (nameLength (d :: window)) := by
  have hname : isIdentChar d = true := by simp [isIdentChar, hd]
  unfold jqName
  rw [Matcher.one_seq_cons (show jqNameStart d = true from hd)]
  simp only [Matcher.many, Option.map_some, nameLength, List.takeWhile_cons, hname, if_true,
    List.length_cons]
  rw [show jqNameChar = isIdentChar from rfl, takeWhile_window hclosed (by decide), Nat.add_comm]

theorem munch_ident (hc : isIdentStart c = true) :
    longest jqRules (c :: (window ++ tail)) = some (.ident, nameLength (c :: window)) := by
  refine longest_of_rule (m := jqName) (by simp [jqRules]) (by decide) (by decide)
    (jqName_window hclosed hc) (by simp [nameLength, isIdentChar, hc]) fun r _ hne => .inl ?_
  exact jqStarts_eq_false hc (by decide +kernel) (by decide +kernel)
    (fun _ => not_isDigit_of_isIdentStart hc) (fun h => absurd h hne)

theorem munch_variable (hd : isIdentStart d = true) :
    longest jqRules ('$' :: d :: (window ++ tail)) =
      some (.variable, 1 + nameLength (d :: window)) := by
  have hpos := nameLength_pos hd window
  refine longest_of_rule (m := .seq (.one (· == '$')) jqName) (by simp [jqRules]) (by decide)
    (by decide) ?_ (by omega) fun r hr hne => ?_
  · rw [Matcher.one_seq_cons (by rfl), jqName_window hclosed hd]
    rfl
  · by_cases ho : r.1 = .operator
    · right
      have hle := operator_le_one (.inl rfl) (not_dot_of_isIdentStart hd) (window ++ tail) r hr ho
      omega
    · left
      generalize r.1 = lexeme at hne ho
      cases lexeme <;> simp_all [jqStarts]
      decide

/-- Of the rules that can start with a `.`, only that of fields takes a name after it. -/
theorem munch_field (hd : isIdentStart d = true) :
    longest jqRules ('.' :: d :: (window ++ tail)) =
      some (.field, 1 + nameLength (d :: window)) := by
  have hpos := nameLength_pos hd window
  refine longest_of_rule (m := .seq (.one (· == '.')) jqName) (by simp [jqRules]) (by decide)
    (by decide) ?_ (by omega) fun r hr hne => ?_
  · rw [Matcher.one_seq_cons (by rfl), jqName_window hclosed hd]
    rfl
  · by_cases ho : r.1 = .operator
    · right
      have hle := operator_le_one (.inr rfl) (not_dot_of_isIdentStart hd) (window ++ tail) r hr ho
      omega
    by_cases hnum : r.1 = .number
    · right
      have hnone : jqNumber ('.' :: d :: (window ++ tail)) = none :=
        jqNumber_dot fun a ha => by
          obtain rfl : d = a := by simpa using ha
          exact not_isDigit_of_isIdentStart hd
      rw [jqRule_unique hr (q := (.number, jqNumber.length)) (by simp [jqRules]) hnum
        (by decide) (by decide)]
      simp only [Matcher.length_eq_zero hnone]
      omega
    · left
      generalize r.1 = lexeme at hne ho hnum
      cases lexeme <;> simp_all [jqStarts]
      decide

/-! ## Numbers -/

theorem many1_window {p : Char → Bool} (hp : p ')' = false) (l : Text) :
    Matcher.many1 p (l ++ tail) =
      if (l.takeWhile p).length = 0 then none else some (l.takeWhile p).length := by
  cases l with
  | nil =>
    cases tail with
    | nil => rfl
    | cons a as =>
      have ha : p a = false := by rw [hclosed a rfl, hp]
      exact Matcher.many1_cons_of_not ha
  | cons d l =>
    cases hd : p d with
    | false => simp [Matcher.many1_cons_of_not hd, hd]
    | true =>
      rw [List.cons_append, Matcher.many1_cons hd, takeWhile_window hclosed hp]
      simp [hd, Nat.add_comm]

/-- The sign and the digits of an exponent, after its mark. -/
theorem jqSigned_window (l : Text) :
    (Matcher.seq (.opt (.one fun c => c == '+' || c == '-')) (.many1 Char.isDigit)) (l ++ tail) =
      match l with
      | [] => none
      | sign :: digits =>
        if sign = '+' ∨ sign = '-' then
          if (digits.takeWhile Char.isDigit).length = 0 then none
          else some (1 + (digits.takeWhile Char.isDigit).length)
        else if sign.isDigit then some ((sign :: digits).takeWhile Char.isDigit).length
        else none := by
  have hunsigned : ∀ l : Text, (∀ d ∈ (l ++ tail).head?, (d == '+' || d == '-') = false) →
      (Matcher.seq (.opt (.one fun c => c == '+' || c == '-')) (.many1 Char.isDigit)) (l ++ tail) =
        Matcher.many1 Char.isDigit (l ++ tail) := by
    intro l hl
    generalize l ++ tail = input at hl
    cases input with
    | nil => rfl
    | cons d rest =>
      have hd := hl d rfl
      simp [Matcher.seq, Matcher.opt, Matcher.one, hd]
  cases l with
  | nil =>
    rw [hunsigned [] fun d hd => by rw [hclosed d hd]; rfl]
    exact many1_window hclosed (by decide) []
  | cons sign digits =>
    by_cases hs : sign = '+' ∨ sign = '-'
    · have hb : (sign == '+' || sign == '-') = true := by simpa using hs
      simp only [if_pos hs, Matcher.seq, Matcher.opt, List.cons_append, Matcher.one, hb, if_true,
        Option.getD_some, Option.bind_some, List.drop_succ_cons, List.drop_zero,
        many1_window hclosed (show Char.isDigit ')' = false by decide)]
      split_ifs <;> rfl
    · have hb : (sign == '+' || sign == '-') = false := by simpa using hs
      rw [hunsigned (sign :: digits) fun d hd => by
        obtain rfl : sign = d := by simpa using hd
        exact hb, many1_window hclosed (by decide)]
      simp only [if_neg hs]
      cases hd : sign.isDigit with
      | false => simp [hd]
      | true => simp [hd]

theorem jqExponent_window (window : Text) :
    jqExponent (window ++ tail) = some (exponentLength window) := by
  unfold jqExponent Matcher.opt
  rw [Option.some.injEq]
  cases window with
  | nil =>
    cases tail with
    | nil => rfl
    | cons a as =>
      obtain rfl := hclosed a rfl
      rfl
  | cons mark rest =>
    by_cases hm : mark = 'e' ∨ mark = 'E'
    · have hb : (mark == 'e' || mark == 'E') = true := by simpa using hm
      rw [List.cons_append, Matcher.one_seq_cons (p := fun c => c == 'e' || c == 'E') hb]
      have hsigned := jqSigned_window hclosed rest
      unfold Matcher.opt at hsigned
      rw [hsigned]
      cases rest with
      | nil => rfl
      | cons sign digits =>
        simp only [exponentLength, if_pos hm]
        split_ifs
        · rfl
        · simp only [Option.map_some, Option.getD_some]
          omega
        · rfl
        · rfl
    · have hb : (mark == 'e' || mark == 'E') = false := by simpa using hm
      have hnone : Matcher.one (fun c => c == 'e' || c == 'E') (mark :: (rest ++ tail)) = none :=
        Matcher.one_cons_of_not hb
      rw [List.cons_append, Matcher.seq_eq_none hnone]
      cases rest with
      | nil => rfl
      | cons sign digits => simp [exponentLength, hm]

omit hclosed in
theorem drop_digits (l : Text) :
    (l ++ tail).drop (l.takeWhile Char.isDigit).length = l.dropWhile Char.isDigit ++ tail := by
  have hsplit := List.takeWhile_append_dropWhile (p := Char.isDigit) (l := l)
  conv_lhs => rw [← hsplit, List.append_assoc]
  exact List.drop_left' (by rw [hsplit])

omit hclosed in
/-- A fraction is counted where a `.` and a digit follow. -/
theorem fractionLength_ne_zero {l : Text} (h : fractionLength l ≠ 0) :
    ∃ d rest, l = '.' :: d :: rest ∧ d.isDigit = true ∧
      fractionLength l = 1 + ((d :: rest).takeWhile Char.isDigit).length := by
  unfold fractionLength at h ⊢
  split at h
  · split_ifs at h with hp
    · obtain ⟨rfl, hd⟩ := hp
      exact ⟨_, _, rfl, hd, by simp [hd]⟩
    · exact absurd rfl h
  · exact absurd rfl h

/-- The digits of a mantissa, and the fraction after them where no bare `.` follows. -/
theorem jqMantissa_window (hc : c.isDigit = true)
    (hdot : fractionLength (window.dropWhile Char.isDigit) = 0 →
      (window.dropWhile Char.isDigit ++ tail).head? ≠ some '.') :
    jqMantissa (c :: (window ++ tail)) = some (1 + (window.takeWhile Char.isDigit).length +
      fractionLength (window.dropWhile Char.isDigit)) := by
  have hfraction : (Matcher.opt (.seq (.one (· == '.')) (.many Char.isDigit)))
      (window.dropWhile Char.isDigit ++ tail) =
        some (fractionLength (window.dropWhile Char.isDigit)) := by
    generalize window.dropWhile Char.isDigit = v at hdot
    by_cases hz : fractionLength v = 0
    · have hhead := hdot hz
      rw [hz]
      generalize v ++ tail = input at hhead
      cases input with
      | nil => rfl
      | cons d rest =>
        have hd : (d == '.') = false := beq_eq_false_iff_ne.mpr fun he => hhead (by rw [he]; rfl)
        simp [Matcher.opt, Matcher.seq_eq_none (Matcher.one_cons_of_not (p := (· == '.')) hd)]
    · obtain ⟨d, rest, rfl, hd, hlen⟩ := fractionLength_ne_zero hz
      rw [hlen]
      simp only [Matcher.opt, List.cons_append]
      rw [Matcher.one_seq_cons (by rfl), Matcher.many, ← List.cons_append,
        takeWhile_window hclosed (by decide)]
      rfl
  have hdrop : (c :: (window ++ tail)).drop (1 + (window.takeWhile Char.isDigit).length) =
      window.dropWhile Char.isDigit ++ tail := by
    rw [Nat.add_comm, List.drop_succ_cons, drop_digits]
  simp only [jqMantissa, Matcher.orElse, Matcher.seq]
  rw [Matcher.many1_cons hc, takeWhile_window hclosed (by decide)]
  simp only [Option.bind_some, hdrop, hfraction, Option.map_some, Option.some_or]

/-- A number that no `.` follows is as long for jq as for the scan. -/
theorem munch_number (hc : c.isDigit = true)
    (hdot : ((c :: (window ++ tail)).drop (numberLength (c :: window))).head? ≠ some '.') :
    longest jqRules (c :: (window ++ tail)) = some (.number, numberLength (c :: window)) := by
  have hwhole : ((c :: window).takeWhile Char.isDigit).length =
      1 + (window.takeWhile Char.isDigit).length := by
    simp [hc, Nat.add_comm]
  have hdropw : (c :: window).drop (1 + (window.takeWhile Char.isDigit).length) =
      window.dropWhile Char.isDigit := by
    have h : (window ++ []).drop (window.takeWhile Char.isDigit).length =
        window.dropWhile Char.isDigit ++ [] := drop_digits window
    rw [Nat.add_comm, List.drop_succ_cons]
    simpa using h
  have hnumber : numberLength (c :: window) = 1 + (window.takeWhile Char.isDigit).length +
      fractionLength (window.dropWhile Char.isDigit) + exponentLength
        ((window.dropWhile Char.isDigit).drop
          (fractionLength (window.dropWhile Char.isDigit))) := by
    simp only [numberLength, hwhole, hdropw, ← List.drop_drop]
  have hdropi : (c :: (window ++ tail)).drop (1 + (window.takeWhile Char.isDigit).length) =
      window.dropWhile Char.isDigit ++ tail := by
    rw [Nat.add_comm, List.drop_succ_cons, drop_digits]
  have hmantissa : jqMantissa (c :: (window ++ tail)) =
      some (1 + (window.takeWhile Char.isDigit).length +
        fractionLength (window.dropWhile Char.isDigit)) := by
    refine jqMantissa_window hclosed hc fun hz hhead => hdot ?_
    rw [hnumber, hz]
    cases hv : window.dropWhile Char.isDigit with
    | nil =>
      rw [hv, List.nil_append] at hhead
      exact absurd (hclosed '.' hhead) (by decide)
    | cons d rest =>
      obtain rfl : d = '.' := by simpa [hv] using hhead
      have hexp : exponentLength ('.' :: rest) = 0 := by
        cases rest <;> simp [exponentLength]
      rw [List.drop_zero, hexp, Nat.add_zero, hdropi, hv]
      rfl
  have hle := fractionLength_le (window.dropWhile Char.isDigit)
  refine longest_of_rule (m := jqNumber) (by simp [jqRules]) (by decide) (by decide) ?_
    (by rw [hnumber]; omega) fun r _ hne => .inl ?_
  · unfold jqNumber Matcher.seq
    rw [hmantissa]
    simp only [Option.bind_some]
    rw [← List.drop_drop, hdropi, List.drop_append_of_le_length hle,
      jqExponent_window hclosed, hnumber]
    rfl
  · refine jqStarts_eq_false hc (by decide +kernel) (by decide +kernel)
      (fun h => absurd h hne) fun _ => ?_
    cases hn : jqNameStart c with
    | false => rfl
    | true =>
      exact absurd hc (by simp [not_isDigit_of_isIdentStart (show isIdentStart c = true from hn)])

end

end TaiSkeleton.Authz.TokenFree
