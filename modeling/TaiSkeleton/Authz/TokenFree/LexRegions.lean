import TaiSkeleton.Authz.TokenFree.AcceptedTokens
import TaiSkeleton.Authz.TokenFree.JqMunch
import Mathlib.Data.List.TakeWhile

/-!
# The scan reads the tokens jq reads

The tokens of the scan, with those of every hole in place, as spans of the text, against the
tokens of jq's lexer on the same text. jq's machine is run along the scan's lexer: a token is one
step, a string literal is a run in and out of its holes, and inside a hole the machine's open
parentheses are those of the scan that found the hole's end (`Region`).
-/

namespace TaiSkeleton.Authz.TokenFree

open Lib

/-! ## The scan's tokens as spans -/

/-- A hole with the tokens of its body. -/
def holeSpans (body : Interpolation → List Span) (hole : Interpolation) : List Span :=
  ⟨.holeOpen, hole.start - 2, hole.start⟩ ::
    (body hole ++ [⟨.holeClose, hole.stop, hole.stop + 1⟩])

/-- The spans of a token, the bodies of its holes given. -/
def tokenSpans (body : Interpolation → List Span) (t : Token) : List Span :=
  match t.kind with
  | .field => [⟨.field, t.position, t.stop⟩]
  | .ident => [⟨.ident, t.position, t.stop⟩]
  | .variable => [⟨.variable, t.position, t.stop⟩]
  | .number => [⟨.number, t.position, t.stop⟩]
  | .format => [⟨.format, t.position, t.stop⟩]
  | .operator => [⟨.operator, t.position, t.stop⟩]
  | .string => ⟨.quoteOpen, t.position, t.position + 1⟩ ::
      (t.interpolations.flatMap (holeSpans body) ++ [⟨.quoteClose, t.stop - 1, t.stop⟩])
  | .end => []

/-- The tokens that `_interpolation` lexes for a hole; none where it refuses the hole. -/
def holeTokens (conditionText : Text) (fuel : ℕ) (hole : Interpolation) : List Token :=
  match lexHole conditionText fuel hole with
  | .ok (tokens, _) => tokens
  | .error _ => []

/-- The spans of a token stream, holes in holes up to `nesting` deep. -/
def spans (conditionText : Text) (fuel : ℕ) : ℕ → List Token → List Span
  | 0, _ => []
  | nesting + 1, tokens => tokens.flatMap (tokenSpans fun hole =>
      spans conditionText fuel nesting (holeTokens conditionText fuel hole))

/-- The spans of all tokens `_lex` produces for a condition; none where it refuses it. -/
def lexSpans (conditionText : Text) (fuel : ℕ) : List Span :=
  match lex conditionText fuel 0 conditionText.length conditionText 0 0 with
  | .ok (tokens, _) => spans conditionText fuel (fuel + 1) tokens
  | .error _ => []

/-- A quoted field `."name"`, one token of the scan, as the `.` and the string literal it is made
of; any other token as it is. -/
def splitQuotedField (conditionText : Text) (s : Span) : List Span :=
  if s.lexeme = .field ∧ conditionText[s.start + 1]? = some '"' then
    [⟨.operator, s.start, s.start + 1⟩, ⟨.quoteOpen, s.start + 1, s.start + 2⟩,
      ⟨.quoteClose, s.stop - 1, s.stop⟩]
  else [s]

/-- No number is directly followed by a `.`, and no variable name starts with a digit. -/
def Separated (conditionText : Text) (spans : List Span) : Prop :=
  ∀ s ∈ spans, (s.lexeme = .number → conditionText[s.stop]? ≠ some '.') ∧
    (s.lexeme = .variable → (conditionText[s.start + 1]?.all fun c => !c.isDigit) = true)

instance (conditionText : Text) (spans : List Span) : Decidable (Separated conditionText spans) :=
  inferInstanceAs (Decidable (∀ s ∈ spans, _))

/-! ## Runs of jq's machine over single tokens -/

variable {conditionText : Text}

theorem emits_token {holes : List ℕ} {c : Char} {rest : Text} {index n : ℕ} {lexeme : Lexeme}
    (hl : longest jqRules (c :: rest) = some (lexeme, n))
    (hlexeme : lexeme ∈ [Lexeme.field, .ident, .variable, .number]) :
    Emits jqStep ⟨false, holes, c :: rest, index⟩ [⟨lexeme, index, index + n⟩]
      ⟨false, holes, (c :: rest).drop n, index + n⟩ :=
  .single (jqStep_token rfl rfl hl hlexeme)

theorem emits_operator {holes holes' : List ℕ} {c : Char} {rest : Text} {index n : ℕ}
    (hl : longest jqRules (c :: rest) = some (.operator, n)) (hnest : jqNest c holes = some holes') :
    Emits jqStep ⟨false, holes, c :: rest, index⟩ [⟨.operator, index, index + n⟩]
      ⟨false, holes', (c :: rest).drop n, index + n⟩ :=
  .single (jqStep_operator rfl rfl hl hnest)

theorem emits_blank {holes : List ℕ} {rest : Text} {index : ℕ} :
    Emits jqStep ⟨false, holes, ' ' :: rest, index⟩ [] ⟨false, holes, rest, index + 1⟩ :=
  .single (jqStep_blank rfl rfl (munch_blank rest))

theorem emits_quote {holes : List ℕ} {rest : Text} {index : ℕ} :
    Emits jqStep ⟨false, holes, '"' :: rest, index⟩ [⟨.quoteOpen, index, index + 1⟩]
      ⟨true, holes, rest, index + 1⟩ :=
  .single (jqStep_quote rfl rfl (munch_quote rest))

/-- The `)` that balances a hole's `\(`. -/
theorem emits_close {holes : List ℕ} {rest : Text} {index : ℕ} :
    Emits jqStep ⟨false, 0 :: holes, ')' :: rest, index⟩ [⟨.holeClose, index, index + 1⟩]
      ⟨true, holes, rest, index + 1⟩ := by
  have hop : operatorAt (')' :: rest) = some ")" := by rfl
  have hl := munch_operator hop fun h => absurd h (by decide)
  exact .single (jqStep_close rfl rfl hl rfl)

theorem emits_text {holes : List ℕ} {c : Char} {rest : Text} {index : ℕ} (hquote : c ≠ '"')
    (hescape : c ≠ '\\') :
    Emits jqStep ⟨true, holes, c :: rest, index⟩ [] ⟨true, holes, rest, index + 1⟩ := by
  refine .single ((jqStep_string rfl rfl).trans ?_)
  unfold jqStringStep
  rw [if_neg hquote, if_neg hescape]
  rfl

theorem emits_escape {holes : List ℕ} {c : Char} {rest : Text} {index : ℕ} (hopen : c ≠ '(') :
    Emits jqStep ⟨true, holes, '\\' :: c :: rest, index⟩ [] ⟨true, holes, rest, index + 2⟩ := by
  refine .single ((jqStep_string rfl rfl).trans ?_)
  unfold jqStringStep
  rw [if_neg (by decide), if_pos rfl]
  show (if c = '(' then _ else _) = _
  rw [if_neg hopen]
  rfl

theorem emits_hole {holes : List ℕ} {rest : Text} {index : ℕ} :
    Emits jqStep ⟨true, holes, '\\' :: '(' :: rest, index⟩ [⟨.holeOpen, index, index + 2⟩]
      ⟨false, 0 :: holes, rest, index + 2⟩ :=
  .single rfl

theorem emits_unquote {holes : List ℕ} {rest : Text} {index : ℕ} :
    Emits jqStep ⟨true, holes, '"' :: rest, index⟩ [⟨.quoteClose, index, index + 1⟩]
      ⟨false, holes, rest, index + 1⟩ :=
  .single rfl

/-! ## String literals -/

/-- jq reads the body of a hole as `body` says, up to the hole's end and no parenthesis open. -/
def HoleRun (conditionText : Text) (body : Interpolation → List Span) (hole : Interpolation) :
    Prop :=
  ∀ outer, Emits jqStep ⟨false, 0 :: outer, conditionText.drop hole.start, hole.start⟩ (body hole)
    ⟨false, 0 :: outer, conditionText.drop hole.stop, hole.stop⟩

/-- The hole was found by a scan from its start. -/
def Scanned (conditionText : Text) (hole : Interpolation) : Prop :=
  ∃ fuel depth rest, scanInterpolation conditionText fuel depth hole.start
    (conditionText.drop hole.start) = .ok (hole.stop, rest)

/-- Where the scan skips the rest of a literal, jq reads it hole by hole and leaves it. -/
theorem stringBody_emits {body : Interpolation → List Span} {fuel depth start index : ℕ}
    {rest rest' parts : Text} {holes : List Interpolation} {token : Token}
    (hrest : rest = conditionText.drop index)
    (h : stringBody conditionText fuel depth start rest index parts holes = .ok (token, rest'))
    (hholes : ∀ hole ∈ token.interpolations, Scanned conditionText hole →
      HoleRun conditionText body hole) :
    ∃ new, token.interpolations = holes.reverse ++ new ∧ ∀ outer,
      Emits jqStep ⟨true, outer, rest, index⟩
        (new.flatMap (holeSpans body) ++ [⟨.quoteClose, token.stop - 1, token.stop⟩])
        ⟨false, outer, rest', token.stop⟩ := by
  induction fuel generalizing rest index parts holes with
  | zero => simp [stringBody] at h
  | succ n ih =>
    cases rest with
    | nil => simp [stringBody] at h
    | cons char rest =>
      have hnext := drop_succ_of_cons hrest
      unfold stringBody at h
      simp only at h
      split_ifs at h with hq hb
      · obtain ⟨rfl, rfl⟩ := Prod.mk.inj (Except.ok.inj h)
        refine ⟨[], by simp, fun outer => ?_⟩
        rw [hq]
        exact emits_unquote
      · obtain ⟨new, hnew, hrun⟩ := ih hnext h
        exact ⟨new, hnew, fun outer => (emits_text hq hb).trans (hrun outer)⟩
      · obtain rfl : char = '\\' := by simpa using hb
        cases rest with
        | nil => simp at h
        | cons escape rest =>
          have hnext' := drop_succ_of_cons hnext
          simp only at h
          split_ifs at h with hp
          · subst hp
            simp only [bind_eq_ok] at h
            obtain ⟨⟨bodyEnd, rest₁⟩, hscan, h⟩ := h
            obtain ⟨_, hclose⟩ := (stringEnds conditionText n).scan hnext' hscan
            obtain ⟨new, hnew, hrun⟩ := ih (drop_succ_of_cons hclose) h
            refine ⟨⟨index + 2, bodyEnd⟩ :: new, by simp [hnew], fun outer => ?_⟩
            have hmem : (⟨index + 2, bodyEnd⟩ : Interpolation) ∈ token.interpolations := by
              simp [hnew]
            have hbody : Emits jqStep ⟨false, 0 :: outer, rest, index + 2⟩
                (body ⟨index + 2, bodyEnd⟩) ⟨false, 0 :: outer, ')' :: rest₁, bodyEnd⟩ := by
              rw [hclose, hnext']
              exact hholes _ hmem ⟨n, depth, rest₁, hnext' ▸ hscan⟩ outer
            have hall := emits_hole.trans (hbody.trans (emits_close.trans (hrun outer)))
            simpa [holeSpans, Nat.add_sub_cancel] using hall
          · cases he : stringEscapes.lookup escape with
            | none => simp [he] at h
            | some decoded =>
              simp only [he] at h
              obtain ⟨new, hnew, hrun⟩ := ih hnext' h
              exact ⟨new, hnew, fun outer => (emits_escape hp).trans (hrun outer)⟩

theorem lexString_emits {body : Interpolation → List Span} {fuel depth start : ℕ}
    {rest rest' : Text} {token : Token} (hrest : rest = conditionText.drop (start + 1))
    (h : lexString conditionText fuel depth start rest = .ok (token, rest'))
    (hholes : ∀ hole ∈ token.interpolations, Scanned conditionText hole →
      HoleRun conditionText body hole) (outer : List ℕ) :
    Emits jqStep ⟨false, outer, '"' :: rest, start⟩ (⟨.quoteOpen, start, start + 1⟩ ::
      (token.interpolations.flatMap (holeSpans body) ++
        [⟨.quoteClose, token.stop - 1, token.stop⟩])) ⟨false, outer, rest', token.stop⟩ := by
  cases fuel with
  | zero => simp [lexString] at h
  | succ n =>
    simp only [lexString, bind_eq_ok] at h
    obtain ⟨_, _, h⟩ := h
    obtain ⟨new, hnew, hrun⟩ := stringBody_emits hrest h hholes
    rw [List.reverse_nil, List.nil_append] at hnew
    rw [hnew]
    exact emits_quote.trans (hrun outer)

/-! ## Stretches of characters -/

/-- A character that neither opens a literal nor counts as a parenthesis. -/
def ordinary (c : Char) : Bool := c != '"' && c != '(' && c != ')'

/-- The first `n` characters are there and satisfy `p`. -/
structure Taken (p : Char → Bool) (l : Text) (n : ℕ) : Prop where
  le : n ≤ l.length
  all : ∀ c ∈ l.take n, p c = true

namespace Taken

variable {p q : Char → Bool} {l : Text} {n m : ℕ}

theorem zero : Taken p l 0 := ⟨Nat.zero_le _, by simp⟩

theorem of_cons {c : Char} (h : Taken p (c :: l) (n + 1)) : Taken p l n :=
  ⟨Nat.le_of_succ_le_succ h.le, fun d hd => h.all d (by simp [hd])⟩

theorem cons {c : Char} (hc : p c = true) (h : Taken p l n) : Taken p (c :: l) (1 + n) := by
  rw [Nat.add_comm]
  refine ⟨Nat.succ_le_succ h.le, fun d hd => ?_⟩
  rw [List.take_succ_cons] at hd
  rcases List.mem_cons.mp hd with rfl | hd
  · exact hc
  · exact h.all d hd

theorem add (h : Taken p l n) (h' : Taken p (l.drop n) m) : Taken p l (n + m) := by
  refine ⟨?_, fun c hc => ?_⟩
  · have := h'.le
    have := h.le
    rw [List.length_drop] at *
    omega
  · rw [List.take_add] at hc
    rcases List.mem_append.mp hc with hc | hc
    · exact h.all c hc
    · exact h'.all c hc

theorem mono (h : Taken p l n) (hpq : ∀ c, p c = true → q c = true) : Taken q l n :=
  ⟨h.le, fun c hc => hpq c (h.all c hc)⟩

theorem append (h : Taken p l n) (tail : Text) : Taken p (l ++ tail) n := by
  refine ⟨?_, fun c hc => h.all c ?_⟩
  · have := h.le
    rw [List.length_append]
    omega
  · rwa [List.take_append_of_le_length h.le] at hc

theorem takeWhile (l : Text) : Taken p l (l.takeWhile p).length := by
  have hpre := List.takeWhile_prefix p (l := l)
  refine ⟨hpre.length_le, fun c hc => ?_⟩
  rw [← List.prefix_iff_eq_take.mp hpre] at hc
  exact List.mem_takeWhile_imp hc

end Taken

/-- The characters of a numeric literal. -/
def isNumberChar (c : Char) : Bool :=
  c.isDigit || ['.', 'e', 'E', '+', '-'].contains c

theorem digits_taken (l : Text) : Taken isNumberChar l (l.takeWhile Char.isDigit).length :=
  (Taken.takeWhile l).mono fun c hc => by simp [isNumberChar, hc]

theorem fraction_taken (l : Text) : Taken isNumberChar l (fractionLength l) := by
  by_cases hz : fractionLength l = 0
  · rw [hz]
    exact .zero
  · obtain ⟨d, rest, rfl, _, hlen⟩ := fractionLength_ne_zero hz
    rw [hlen]
    exact (digits_taken (d :: rest)).cons (by decide)

theorem exponent_taken (l : Text) : Taken isNumberChar l (exponentLength l) := by
  unfold exponentLength
  split
  · rename_i mark sign rest
    split_ifs with hm hs hz hd
    · exact .zero
    · have hmark : isNumberChar mark = true := by rcases hm with rfl | rfl <;> decide
      have hsign : isNumberChar sign = true := by rcases hs with rfl | rfl <;> decide
      have h := ((digits_taken rest).cons hsign).cons hmark
      rwa [← Nat.add_assoc] at h
    · have hmark : isNumberChar mark = true := by rcases hm with rfl | rfl <;> decide
      exact (digits_taken (sign :: rest)).cons hmark
    · exact .zero
    · exact .zero
  · exact .zero

theorem number_taken (l : Text) : Taken isNumberChar l (numberLength l) :=
  ((digits_taken l).add (fraction_taken _)).add (exponent_taken _)

theorem ordinary_of_class {p : Char → Bool} {c : Char} (hc : p c = true)
    (hp : p '"' = false ∧ p '(' = false ∧ p ')' = false) : ordinary c = true := by
  have hne : ∀ d, p d = false → c ≠ d := fun d hd he => by simp [he, hd] at hc
  simp [ordinary, hne _ hp.1, hne _ hp.2.1, hne _ hp.2.2]

/-! ## Regions of code -/

/-- The holes open around code: none around the condition itself, and around the body of a hole
that hole, with `depth` parentheses open in it, and the `outer` ones. -/
def openHoles : Option (List ℕ) → ℕ → List ℕ
  | none, _ => []
  | some outer, depth => depth :: outer

/-- Code up to `stop`: the condition up to its end, or the body of a hole up to the `)` that the
scan, now at `index`, finds. -/
def Region (conditionText : Text) (stop : ℕ) : Option (List ℕ) → ℕ → ℕ → Prop
  | none, _, _ => stop = conditionText.length
  | some _, depth, index => ∃ fuel scanDepth start rest,
      scanBody conditionText fuel scanDepth start (depth + 1) (conditionText.drop index) index =
        .ok (stop, rest)

variable {stop depth index : ℕ} {outer : Option (List ℕ)}

/-- A region ends at the end of the text or at a `)`. -/
theorem Region.closed (h : Region conditionText stop outer depth index) :
    ∀ c ∈ (conditionText.drop stop).head?, c = ')' := by
  intro c hc
  cases outer with
  | none =>
    have hstop : stop = conditionText.length := h
    rw [hstop, List.drop_length] at hc
    simp at hc
  | some outer =>
    obtain ⟨fuel, _, _, rest, hscan⟩ := h
    have hend := ((stringEnds conditionText fuel).scanBody rfl hscan).2
    rw [← hend] at hc
    simpa using hc.symm

theorem Region.le_of_some {outer : List ℕ}
    (h : Region conditionText stop (some outer) depth index) : index ≤ stop := by
  obtain ⟨fuel, _, _, rest, hscan⟩ := h
  exact ((stringEnds conditionText fuel).scanBody rfl hscan).1

/-- A character that the scan passes over keeps the region. -/
theorem Region.next (h : Region conditionText stop outer depth index) {c : Char} {rest : Text}
    (hrest : c :: rest = conditionText.drop index) (hquote : c ≠ '"') (hopen : c ≠ '(')
    (hclose : c ≠ ')') : Region conditionText stop outer depth (index + 1) := by
  cases outer with
  | none => exact h
  | some outer =>
    obtain ⟨fuel, scanDepth, start, restEnd, hscan⟩ := h
    cases fuel with
    | zero => simp [scanBody] at hscan
    | succ n =>
      rw [← hrest] at hscan
      simp only [scanBody, if_neg hquote, if_neg hopen, if_neg hclose] at hscan
      rw [drop_succ_of_cons hrest] at hscan
      exact ⟨n, scanDepth, start, restEnd, hscan⟩

/-- So does a stretch of such characters. -/
theorem Region.skip (h : Region conditionText stop outer depth index) {l : Text} {n : ℕ}
    (hl : l = conditionText.drop index) (htaken : Taken ordinary l n) :
    Region conditionText stop outer depth (index + n) := by
  induction n generalizing index l with
  | zero => exact h
  | succ n ih =>
    cases l with
    | nil => exact absurd htaken.le (by simp)
    | cons c l =>
      have hc := htaken.all c (by simp)
      simp only [ordinary, Bool.and_eq_true, bne_iff_ne] at hc
      have hnext := h.next hl hc.1.1 hc.1.2 hc.2
      have hind := ih hnext (drop_succ_of_cons hl) htaken.of_cons
      rwa [Nat.add_comm n 1, ← Nat.add_assoc]

/-- A literal is skipped whole, wherever its budget would end. -/
theorem Region.literal (h : Region conditionText stop outer depth index) {rest rest' : Text}
    (hrest : '"' :: rest = conditionText.drop index) {fuel stringDepth : ℕ} {token : Token}
    (hstring : lexString conditionText fuel stringDepth index rest = .ok (token, rest')) :
    Region conditionText stop outer depth token.stop := by
  cases outer with
  | none => exact h
  | some outer =>
    obtain ⟨scanFuel, scanDepth, start, restEnd, hscan⟩ := h
    cases scanFuel with
    | zero => simp [scanBody] at hscan
    | succ n =>
      rw [← hrest] at hscan
      simp only [scanBody, if_true, bind_eq_ok] at hscan
      obtain ⟨⟨token', rest₁⟩, hstring', hscan⟩ := hscan
      obtain ⟨rfl, rfl⟩ := Prod.mk.inj (lexString_unique hstring hstring')
      have hr := ((stringEnds conditionText fuel).string (drop_succ_of_cons hrest) hstring).2.2.2
      exact ⟨n, scanDepth, start, restEnd, hr ▸ hscan⟩

/-- An operator opens or closes a parenthesis, for the scan and for jq, or does neither. -/
theorem Region.operator (h : Region conditionText stop outer depth index) (hlt : index < stop)
    {rest : Text} {op : String} {c : Char} (hrest : c :: rest = conditionText.drop index)
    (hop : operatorAt (c :: rest) = some op) :
    ∃ depth', Region conditionText stop outer depth' (index + op.length) ∧
      jqNest c (openHoles outer depth) = some (openHoles outer depth') := by
  have hmem : op ∈ operators := List.mem_of_find?_eq_some hop
  have hpre : op.toList <+: c :: rest :=
    List.isPrefixOf_iff_prefix.mp (by simpa using List.find?_some hop)
  have hkinds : ∀ o ∈ operators, o = "(" ∨ o = ")" ∨
      (o.toList.all ordinary = true ∧ o.toList.head?.all (fun d => d != '(' && d != ')') = true) := by
    decide +kernel
  rcases hkinds op hmem with rfl | rfl | ⟨hall, hhead⟩
  · obtain rfl : '(' = c := (List.cons_prefix_cons.mp hpre).1
    cases outer with
    | none => exact ⟨depth, h, rfl⟩
    | some outer =>
      obtain ⟨fuel, scanDepth, start, restEnd, hscan⟩ := h
      cases fuel with
      | zero => simp [scanBody] at hscan
      | succ n =>
        rw [← hrest] at hscan
        simp only [scanBody, if_neg (show '(' ≠ '"' by decide), if_true] at hscan
        rw [drop_succ_of_cons hrest] at hscan
        exact ⟨depth + 1, ⟨n, scanDepth, start, restEnd, hscan⟩, rfl⟩
  · obtain rfl : ')' = c := (List.cons_prefix_cons.mp hpre).1
    cases outer with
    | none => exact ⟨depth, h, rfl⟩
    | some outer =>
      obtain ⟨fuel, scanDepth, start, restEnd, hscan⟩ := h
      cases fuel with
      | zero => simp [scanBody] at hscan
      | succ n =>
        rw [← hrest] at hscan
        simp only [scanBody, if_neg (show ')' ≠ '"' by decide), if_neg (show ')' ≠ '(' by decide),
          if_true, Nat.add_sub_cancel] at hscan
        split_ifs at hscan with hz
        · obtain ⟨rfl, _⟩ := Prod.mk.inj (Except.ok.inj hscan)
          exact absurd hlt (Nat.lt_irrefl index)
        · rw [drop_succ_of_cons hrest] at hscan
          refine ⟨depth - 1, ⟨n, scanDepth, start, restEnd, ?_⟩, ?_⟩
          · rw [Nat.sub_add_cancel (Nat.pos_of_ne_zero hz)]
            exact hscan
          · simp [openHoles, jqNest, hz]
  · refine ⟨depth, ?_, ?_⟩
    · refine h.skip hrest ⟨?_, fun d hd => ?_⟩
      · rw [← String.length_toList]
        exact hpre.length_le
      · rw [← String.length_toList, ← List.prefix_iff_eq_take.mp hpre] at hd
        exact List.all_eq_true.mp hall d hd
    · have hc : c ≠ '(' ∧ c ≠ ')' := by
        cases hchars : op.toList with
        | nil =>
          have hne : ∀ o ∈ operators, o.toList ≠ [] := by decide
          exact absurd hchars (hne op hmem)
        | cons a as =>
          rw [hchars] at hpre hhead
          rw [← (List.cons_prefix_cons.mp hpre).1]
          simpa using hhead
      cases outer with
      | none => rfl
      | some outer => simp [openHoles, jqNest, hc]

/-! ## Tokens in a region -/

/-- What jq's lexer emits for a token of the scan, the bodies of its holes given. -/
def jqSpans (conditionText : Text) (body : Interpolation → List Span) (t : Token) : List Span :=
  if t.kind = .field then splitQuotedField conditionText ⟨.field, t.position, t.stop⟩
  else tokenSpans body t

/-- What agreement asks of a single token: it is no format string and no `..`, a number that no
`.` follows, a variable whose name starts with no digit, a `.` that no digit follows in its
region, and as a literal one whose holes jq reads as `body` says. -/
structure Agreeable (conditionText : Text) (body : Interpolation → List Span) (stop : ℕ)
    (t : Token) : Prop where
  format : t.kind ≠ .format
  descent : t.isOperator [".."] = false
  number : t.kind = .number → conditionText[t.stop]? ≠ some '.'
  var : t.kind = .variable → ∀ c, conditionText[t.position + 1]? = some c → c.isDigit = false
  dot : t.isOperator ["."] = true → t.stop < stop →
    ∀ c, conditionText[t.stop]? = some c → c.isDigit = false
  holes : t.kind = .string → ∀ hole ∈ t.interpolations, Scanned conditionText hole →
    HoleRun conditionText body hole

theorem getElem?_of_drop {l : Text} {index : ℕ} {c : Char} {rest : Text}
    (h : c :: rest = l.drop index) (i : ℕ) : l[index + i]? = (c :: rest)[i]? := by
  rw [h, List.getElem?_drop]

theorem name_taken (l : Text) : Taken ordinary l (nameLength l) :=
  (Taken.takeWhile l).mono fun _ hc => ordinary_of_class hc (by decide)

/-- A stretch of ordinary characters that is a token for jq keeps the region. -/
theorem word_emits {c : Char} {w tail : Text} {n : ℕ} {lexeme : Lexeme}
    (hrest : c :: (w ++ tail) = conditionText.drop index)
    (hregion : Region conditionText stop outer depth index) (htaken : Taken ordinary (c :: w) n)
    (hl : longest jqRules (c :: (w ++ tail)) = some (lexeme, n))
    (hlexeme : lexeme ∈ [Lexeme.field, .ident, .variable, .number]) :
    ∃ depth', Region conditionText stop outer depth' (index + n) ∧
      Emits jqStep ⟨false, openHoles outer depth, c :: (w ++ tail), index⟩
        [⟨lexeme, index, index + n⟩]
        ⟨false, openHoles outer depth', (c :: (w ++ tail)).drop n, index + n⟩ :=
  ⟨depth, hregion.skip hrest (htaken.append tail), emits_token hl hlexeme⟩

/-- A quoted field is the operator `.` and a string literal. -/
theorem quotedField_emits {body : Interpolation → List Span} {fuel lexDepth : ℕ}
    {rest rest' : Text} {quoted : Token}
    (hrest : '.' :: '"' :: rest = conditionText.drop index)
    (hregion : Region conditionText stop outer depth index)
    (h : lexString conditionText fuel lexDepth (index + 1) rest = .ok (quoted, rest'))
    (hnone : quoted.interpolations = []) :
    Region conditionText stop outer depth quoted.stop ∧
      Emits jqStep ⟨false, openHoles outer depth, '.' :: '"' :: rest, index⟩
        (jqSpans conditionText body ⟨.field, quoted.text, quoted.position - 1, quoted.stop, []⟩)
        ⟨false, openHoles outer depth, rest', quoted.stop⟩ := by
  have hnext := drop_succ_of_cons hrest
  have hliteral := hregion.next hrest (by decide) (by decide) (by decide)
  refine ⟨hliteral.literal hnext h, ?_⟩
  have hop : operatorAt ('.' :: '"' :: rest) = some "." := by rfl
  have hl := munch_operator hop fun _ d hd => by
    obtain rfl : '"' = d := by simpa using hd
    decide
  have hdot : Emits jqStep ⟨false, openHoles outer depth, '.' :: '"' :: rest, index⟩
      [⟨.operator, index, index + 1⟩] ⟨false, openHoles outer depth, '"' :: rest, index + 1⟩ := by
    refine emits_operator hl ?_
    cases outer <;> rfl
  have hholes : ∀ hole ∈ quoted.interpolations, Scanned conditionText hole →
      HoleRun conditionText body hole := by
    simp [hnone]
  have hrun := hdot.trans
    (lexString_emits (drop_succ_of_cons hnext) h hholes (openHoles outer depth))
  have hquote : conditionText[index + 1]? = some '"' := by
    rw [getElem?_of_drop hrest 1]
    rfl
  obtain ⟨_, hp, _, _⟩ := (stringEnds conditionText fuel).string (drop_succ_of_cons hnext) h
  simpa [jqSpans, splitQuotedField, hp, hnone, hquote] using hrun

theorem prefix_of_operatorAt {rest : Text} {op : String} (hop : operatorAt rest = some op) :
    op.toList <+: rest :=
  List.isPrefixOf_iff_prefix.mp (by simpa using List.find?_some hop)

theorem operatorAt_isOperator {rest : Text} {op : String} (hop : operatorAt rest = some op)
    (index : ℕ) (texts : List String) :
    (plainToken .operator rest index 0 op.length).1.isOperator texts = texts.contains op := by
  have htext : String.ofList ((rest.take op.length).drop 0) = op := by
    rw [← String.length_toList, ← List.prefix_iff_eq_take.mp (prefix_of_operatorAt hop),
      List.drop_zero, String.ofList_toList]
  simp only [plainToken, Token.isOperator, htext]
  rfl

theorem operatorAt_dot {c : Char} {rest : Text} {op : String}
    (hop : operatorAt (c :: rest) = some op) (hc : c = '.') : op = "." ∨ op = ".." := by
  have hpre := prefix_of_operatorAt hop
  have hhead : op.toList.head? = none ∨ op.toList.head? = some '.' := by
    cases hchars : op.toList with
    | nil => exact .inl rfl
    | cons a as =>
      rw [hchars] at hpre
      rw [(List.cons_prefix_cons.mp hpre).1, hc]
      exact .inr rfl
  have hdots : ∀ o ∈ operators, o.toList.head? = none ∨ o.toList.head? = some '.' →
      o = "." ∨ o = ".." := by
    decide
  exact hdots op (List.mem_of_find?_eq_some hop) hhead

/-- One token of the scan is one run of jq's lexer, and keeps the region. -/
theorem nextToken_emits {body : Interpolation → List Span} {fuel lexDepth : ℕ} {char : Char}
    {rest rest' : Text} {token : Token} (hrest : char :: rest = conditionText.drop index)
    (hregion : Region conditionText stop outer depth index) (hlt : index < stop)
    (h : nextToken conditionText fuel lexDepth stop index char rest = .ok (token, rest'))
    (hagree : Agreeable conditionText body stop token) :
    ∃ depth', Region conditionText stop outer depth' token.stop ∧
      Emits jqStep ⟨false, openHoles outer depth, char :: rest, index⟩
        (jqSpans conditionText body token) ⟨false, openHoles outer depth', rest', token.stop⟩ := by
  have hclosed := hregion.closed
  -- `w` is the rest of the window up to `stop`, and `tail` what follows it.
  have hwindow : (char :: rest).take (stop - index) = char :: rest.take (stop - index - 1) := by
    obtain ⟨k, hk⟩ := Nat.exists_eq_add_of_lt hlt
    have hsub : stop - index = k + 1 := by omega
    rw [hsub]
    rfl
  have hsplit : rest = rest.take (stop - index - 1) ++ conditionText.drop stop := by
    have htail : rest.drop (stop - index - 1) = conditionText.drop stop := by
      rw [drop_succ_of_cons hrest, List.drop_drop]
      congr 1
      omega
    rw [← htail, List.take_append_drop]
  have hwlen : (rest.take (stop - index - 1)).length ≤ stop - index - 1 := List.length_take_le _ _
  generalize rest.take (stop - index - 1) = w at hwindow hsplit hwlen
  generalize conditionText.drop stop = tail at hclosed hsplit
  subst hsplit
  unfold nextToken at h
  simp only [hwindow, List.drop_succ_cons, List.drop_zero] at h
  split_ifs at h with hquote hdollar hnameless hat hdigit hident hfield hquoted
  · -- a string literal
    subst hquote
    obtain ⟨hk, hp, _, _⟩ := (stringEnds conditionText fuel).string (drop_succ_of_cons hrest) h
    refine ⟨depth, hregion.literal hrest h, ?_⟩
    have hrun := lexString_emits (drop_succ_of_cons hrest) h (hagree.holes hk)
      (openHoles outer depth)
    simpa [jqSpans, tokenSpans, hk, hp] using hrun
  · exact absurd h (by simp)
  · -- a variable
    obtain ⟨rfl, rfl⟩ := Prod.mk.inj (Except.ok.inj h)
    subst hdollar
    cases w with
    | nil => exact absurd rfl hnameless
    | cons d w =>
      have hchar : isIdentChar d = true := by
        by_contra hd
        exact hnameless (by simp [nameLength, hd])
      have hget : conditionText[index + 1]? = some d := getElem?_of_drop hrest 1
      have hd : isIdentStart d = true := by
        have hnot := hagree.var rfl d hget
        simpa [isIdentChar, hnot] using hchar
      exact word_emits hrest hregion ((name_taken (d :: w)).cons (by decide))
        (munch_variable hclosed hd) (by simp)
  · -- a format string
    obtain ⟨rfl, _⟩ := Prod.mk.inj (Except.ok.inj h)
    exact absurd rfl hagree.format
  · -- a number
    obtain ⟨rfl, rfl⟩ := Prod.mk.inj (Except.ok.inj h)
    have htaken := (number_taken (char :: w)).mono fun c hc =>
      ordinary_of_class (p := isNumberChar) hc (by decide)
    refine word_emits hrest hregion htaken (munch_number hclosed hdigit ?_) (by simp)
    rw [hrest, List.drop_drop, List.head?_drop]
    exact hagree.number rfl
  · -- a name
    obtain ⟨rfl, rfl⟩ := Prod.mk.inj (Except.ok.inj h)
    exact word_emits hrest hregion (name_taken (char :: w)) (munch_ident hclosed hident) (by simp)
  · -- a field
    obtain ⟨rfl, rfl⟩ := Prod.mk.inj (Except.ok.inj h)
    obtain ⟨rfl, hhead⟩ := hfield
    cases w with
    | nil => exact absurd hhead (by simp)
    | cons d w =>
      have hd : isIdentStart d = true := by simpa using hhead
      have hrun := word_emits hrest hregion ((name_taken (d :: w)).cons (by decide))
        (munch_field hclosed hd) (by simp)
      have hquote : conditionText[index + 1]? ≠ some '"' := by
        have hget : conditionText[index + 1]? = some d := getElem?_of_drop hrest 1
        rw [hget]
        intro he
        rw [Option.some.inj he] at hd
        exact absurd hd (by decide)
      simpa [jqSpans, splitQuotedField, plainToken, hquote] using hrun
  · -- a quoted field
    obtain ⟨rfl, hhead⟩ := hquoted
    simp only [bind_eq_ok] at h
    obtain ⟨⟨quoted, rest₁⟩, hstring, h⟩ := h
    split_ifs at h with hnone
    · exact absurd h (by simp)
    obtain ⟨rfl, rfl⟩ := Prod.mk.inj (Except.ok.inj h)
    cases w with
    | nil => exact absurd hhead (by simp)
    | cons d w =>
      obtain rfl : d = '"' := by simpa using hhead
      exact ⟨depth, quotedField_emits hrest hregion hstring (not_not.mp hnone)⟩
  · -- an operator
    split at h
    · exact absurd h (by simp)
    rename_i op hop
    obtain ⟨rfl, rfl⟩ := Prod.mk.inj (Except.ok.inj h)
    obtain ⟨depth', hregion', hnest⟩ := hregion.operator hlt hrest hop
    refine ⟨depth', hregion', ?_⟩
    have hl := munch_operator hop fun hdot d hd => by
      cases w with
      | nil =>
        rw [hclosed d hd]
        decide
      | cons e w =>
        obtain rfl : e = d := by simpa using hd
        refine ⟨by simpa [hdot] using hfield, ?_⟩
        have hget : conditionText[index + 1]? = some e := getElem?_of_drop hrest 1
        have hlen : index + 1 < stop := by
          have := hwlen
          rw [List.length_cons] at this
          omega
        rcases operatorAt_dot hop hdot with rfl | rfl
        · exact hagree.dot (operatorAt_isOperator hop index ["."]) hlen e hget
        · have hyes := operatorAt_isOperator hop index [".."]
          exact absurd (hyes.symm.trans hagree.descent) (by decide)
    exact emits_operator hl hnest

end TaiSkeleton.Authz.TokenFree
