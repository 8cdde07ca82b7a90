import TaiSkeleton.Authz.TokenFree.Source
import TaiSkeleton.Lib.Machine
import TaiSkeleton.Lib.Munch

/-!
# jq's lexer

The lexer of jq, as a machine over the text that is left. In code it takes the longest match of
its rules; a quote enters a string literal, whose `\(` enters a hole, which the `)` that balances
it leaves again. Its tokens are spans of the text with their lexical class.
-/

namespace TaiSkeleton.Authz.TokenFree

open Lib

/-- The lexical classes of jq, and the blanks and comments between tokens. -/
inductive Lexeme where
  | field | ident | variable | number | format | operator
  | quoteOpen | quoteClose | holeOpen | holeClose
  | blank
deriving DecidableEq, Repr

/-- A token: its class, and where it starts and ends in the text. -/
structure Span where
  lexeme : Lexeme
  start : ℕ
  stop : ℕ
deriving DecidableEq, Repr

/-! ## The rules -/

/-- `[A-Za-z_]` -/
def jqNameStart (c : Char) : Bool := c.isAlpha || c == '_'

/-- `[A-Za-z0-9_]` -/
def jqNameChar (c : Char) : Bool := jqNameStart c || c.isDigit

/-- `[A-Za-z_][A-Za-z0-9_]*` -/
def jqName : Matcher Char := .seq (.one jqNameStart) (.many jqNameChar)

/-- `([eE][+-]?[0-9]+)?` -/
def jqExponent : Matcher Char :=
  .opt (.seq (.one fun c => c == 'e' || c == 'E')
    (.seq (.opt (.one fun c => c == '+' || c == '-')) (.many1 Char.isDigit)))

/-- `[0-9]+(\.[0-9]*)?|\.[0-9]+` -/
def jqMantissa : Matcher Char :=
  .orElse
    (.seq (.many1 Char.isDigit) (.opt (.seq (.one (· == '.')) (.many Char.isDigit))))
    (.seq (.one (· == '.')) (.many1 Char.isDigit))

/-- `([0-9]+(\.[0-9]*)?|\.[0-9]+)([eE][+-]?[0-9]+)?` -/
def jqNumber : Matcher Char := .seq jqMantissa jqExponent

/-- jq's operators and punctuation. -/
def jqOperators : List String :=
  ["!=", "==", "//", "?//", "|=", "+=", "-=", "*=", "/=", "%=", "//=", "<=", ">=", "..", ".", "?",
    "=", ";", ",", ":", "|", "+", "-", "*", "/", "%", "$", "<", ">", "[", "\x7b", "(", "]", "\x7d",
    ")"]

/-- The rules of jq's lexer in code. A run of blanks, which is no token, is skipped one blank at
a time. -/
def jqRules : List (Lexeme × (Text → ℕ)) :=
  [(.blank, (Matcher.one fun c => [' ', '\n', '\t', '\r'].contains c).length),
    (.blank, (Matcher.seq (.one (· == '#')) (.many (· != '\n'))).length),
    (.field, (Matcher.seq (.one (· == '.')) jqName).length),
    (.number, jqNumber.length),
    (.ident, jqName.length),
    (.variable, (Matcher.seq (.one (· == '$')) jqName).length),
    (.format, (Matcher.seq (.one (· == '@')) (.many1 jqNameChar)).length),
    (.quoteOpen, (Matcher.one (· == '"')).length)] ++
  jqOperators.map fun w => (.operator, (Matcher.word w.toList).length)

/-! ## The machine -/

/-- Where the lexer is: in a string literal or in code, in which holes (each with the parentheses
open in it, innermost first), and what is left of the text from `index` on. -/
structure JqState where
  inString : Bool
  holes : List ℕ
  rest : Text
  index : ℕ

/-- The state `n` characters further. -/
def JqState.skip (s : JqState) (n : ℕ) : JqState :=
  { s with rest := s.rest.drop n, index := s.index + n }

/-- The token of `n` characters at the current position. -/
def JqState.span (s : JqState) (lexeme : Lexeme) (n : ℕ) : Span := ⟨lexeme, s.index, s.index + n⟩

/-- One step in a string literal, whose next character is `char`. -/
def jqStringStep (s : JqState) (char : Char) : Option (List Span × JqState) :=
  if char = '"' then some ([s.span .quoteClose 1], { s.skip 1 with inString := false })
  else if char = '\\' then
    match (s.skip 1).rest with
    | [] => none
    | escape :: _ =>
      if escape = '(' then
        some ([s.span .holeOpen 2], { s.skip 2 with inString := false, holes := 0 :: s.holes })
      else some ([], s.skip 2)
  else some ([], s.skip 1)

/-- What an operator does to the open holes; `none` where it closes the innermost. -/
def jqNest (char : Char) (holes : List ℕ) : Option (List ℕ) :=
  match holes with
  | [] => some []
  | depth :: outer =>
    if char = '(' then some ((depth + 1) :: outer)
    else if char = ')' then if depth = 0 then none else some ((depth - 1) :: outer)
    else some (depth :: outer)

/-- One step in code, whose next character is `char`. -/
def jqCodeStep (s : JqState) (char : Char) : Option (List Span × JqState) :=
  match longest jqRules s.rest with
  | none => none
  | some (.blank, n) => some ([], s.skip n)
  | some (.quoteOpen, n) => some ([s.span .quoteOpen n], { s.skip n with inString := true })
  | some (.operator, n) =>
    match jqNest char s.holes with
    | some holes => some ([s.span .operator n], { s.skip n with holes })
    | none =>
      some ([s.span .holeClose n], { s.skip n with inString := true, holes := s.holes.tail })
  | some (lexeme, n) => some ([s.span lexeme n], s.skip n)

/-- One step of jq's lexer, and the tokens it emits. -/
def jqStep (s : JqState) : Option (List Span × JqState) :=
  match s.rest with
  | [] => none
  | char :: _ => if s.inString then jqStringStep s char else jqCodeStep s char

/-- The tokens of a text, if jq's lexer reads it to the end, outside all literals. -/
def jqLex (conditionText : Text) : Option (List Span) :=
  let run := drain jqStep conditionText.length ⟨false, [], conditionText, 0⟩
  if run.2.rest = [] ∧ run.2.inString = false ∧ run.2.holes = [] then some run.1 else none

/-! ## Single steps -/

section

variable {s : JqState} {c : Char} {rest : Text} (hrest : s.rest = c :: rest)

include hrest

theorem jqStep_code (hcode : s.inString = false) : jqStep s = jqCodeStep s c := by
  unfold jqStep
  rw [hrest, hcode]
  rfl

theorem jqStep_string (hstring : s.inString = true) : jqStep s = jqStringStep s c := by
  unfold jqStep
  rw [hrest, hstring]
  rfl

theorem jqStep_token (hcode : s.inString = false) {lexeme : Lexeme} {n : ℕ}
    (hl : longest jqRules (c :: rest) = some (lexeme, n))
    (hlexeme : lexeme ∈ [Lexeme.field, .ident, .variable, .number]) :
    jqStep s = some ([s.span lexeme n], s.skip n) := by
  rw [jqStep_code hrest hcode]
  unfold jqCodeStep
  rw [hrest, hl]
  simp only [List.mem_cons, List.not_mem_nil, or_false] at hlexeme
  rcases hlexeme with rfl | rfl | rfl | rfl <;> rfl

theorem jqStep_blank (hcode : s.inString = false) {n : ℕ}
    (hl : longest jqRules (c :: rest) = some (.blank, n)) :
    jqStep s = some ([], s.skip n) := by
  rw [jqStep_code hrest hcode]
  unfold jqCodeStep
  rw [hrest, hl]

theorem jqStep_quote (hcode : s.inString = false) {n : ℕ}
    (hl : longest jqRules (c :: rest) = some (.quoteOpen, n)) :
    jqStep s = some ([s.span .quoteOpen n], { s.skip n with inString := true }) := by
  rw [jqStep_code hrest hcode]
  unfold jqCodeStep
  rw [hrest, hl]

theorem jqStep_operator (hcode : s.inString = false) {n : ℕ} {holes : List ℕ}
    (hl : longest jqRules (c :: rest) = some (.operator, n)) (hnest : jqNest c s.holes = some holes) :
    jqStep s = some ([s.span .operator n], { s.skip n with holes }) := by
  rw [jqStep_code hrest hcode]
  unfold jqCodeStep
  rw [hrest, hl]
  simp only [hnest]

theorem jqStep_close (hcode : s.inString = false) {n : ℕ}
    (hl : longest jqRules (c :: rest) = some (.operator, n)) (hnest : jqNest c s.holes = none) :
    jqStep s =
      some ([s.span .holeClose n], { s.skip n with inString := true, holes := s.holes.tail }) := by
  rw [jqStep_code hrest hcode]
  unfold jqCodeStep
  rw [hrest, hl]
  simp only [hnest]

end

/-! ## Every step takes a character -/

theorem JqState.skip_lt {s : JqState} {n : ℕ} (hn : 0 < n) (hs : s.rest ≠ []) :
    (s.skip n).rest.length < s.rest.length := by
  have hpos : 0 < s.rest.length := List.length_pos_iff.mpr hs
  simp only [JqState.skip, List.length_drop]
  omega

theorem jqStringStep_lt {s s' : JqState} {char : Char} {out : List Span} (hs : s.rest ≠ [])
    (h : jqStringStep s char = some (out, s')) : s'.rest.length < s.rest.length := by
  unfold jqStringStep at h
  split_ifs at h
  · obtain ⟨_, rfl⟩ := Prod.mk.inj (Option.some.inj h)
    exact s.skip_lt Nat.one_pos hs
  · split at h
    · simp at h
    split_ifs at h
    · obtain ⟨_, rfl⟩ := Prod.mk.inj (Option.some.inj h)
      exact s.skip_lt Nat.two_pos hs
    · obtain ⟨_, rfl⟩ := Prod.mk.inj (Option.some.inj h)
      exact s.skip_lt Nat.two_pos hs
  · obtain ⟨_, rfl⟩ := Prod.mk.inj (Option.some.inj h)
    exact s.skip_lt Nat.one_pos hs

theorem jqCodeStep_lt {s s' : JqState} {char : Char} {out : List Span} (hs : s.rest ≠ [])
    (h : jqCodeStep s char = some (out, s')) : s'.rest.length < s.rest.length := by
  unfold jqCodeStep at h
  split at h
  · simp at h
  · obtain ⟨_, rfl⟩ := Prod.mk.inj (Option.some.inj h)
    exact s.skip_lt (longest_pos ‹_›) hs
  · obtain ⟨_, rfl⟩ := Prod.mk.inj (Option.some.inj h)
    exact s.skip_lt (longest_pos ‹_›) hs
  · split at h
    · obtain ⟨_, rfl⟩ := Prod.mk.inj (Option.some.inj h)
      exact s.skip_lt (longest_pos ‹_›) hs
    · obtain ⟨_, rfl⟩ := Prod.mk.inj (Option.some.inj h)
      exact s.skip_lt (longest_pos ‹_›) hs
  · obtain ⟨_, rfl⟩ := Prod.mk.inj (Option.some.inj h)
    exact s.skip_lt (longest_pos ‹_›) hs

theorem jqStep_lt (s : JqState) (out : List Span) (s' : JqState)
    (h : jqStep s = some (out, s')) : s'.rest.length < s.rest.length := by
  unfold jqStep at h
  split at h
  · simp at h
  rename_i char rest hrest
  have hs : s.rest ≠ [] := by simp [hrest]
  split_ifs at h
  · exact jqStringStep_lt hs h
  · exact jqCodeStep_lt hs h

/-- A run from the start of the text to its end, outside all literals, is what `jqLex` reads. -/
theorem jqLex_eq {conditionText : Text} {spans : List Span} {index : ℕ}
    (h : Emits jqStep ⟨false, [], conditionText, 0⟩ spans ⟨false, [], [], index⟩) :
    jqLex conditionText = some spans := by
  unfold jqLex
  rw [h.drain_eq jqStep_lt rfl (Nat.le_refl _)]
  simp

end TaiSkeleton.Authz.TokenFree
