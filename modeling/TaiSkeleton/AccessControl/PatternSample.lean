import TaiSkeleton.AccessControl.Settings

/-!
# A representative path of a pattern

A dynamic route pattern is a regex. One path that it matches is derived from the tree that the
standard library parses it to, and is taken only where the pattern matches it whole.
-/

namespace TaiSkeleton.AccessControl

/-- The character categories of `re`. -/
inductive Category where
  | digit | word | space | notDigit | notWord | notSpace
deriving DecidableEq

/-- A member of a character set: `LITERAL`, `RANGE` and `CATEGORY`. -/
inductive SetMember where
  | literal (c : Char)
  | range (first last : Char)
  | category (category : Category)

/-- A node of a parsed pattern. `repeated` is `MAX_REPEAT` and `MIN_REPEAT`, `position` is `AT`;
`other` is any node without a sample. -/
inductive RegexNode where
  | literal (c : Char)
  | notLiteral (c : Char)
  | any
  | set (negate : Bool) (members : List SetMember)
  | repeated (minimum : ℕ) (body : List RegexNode)
  | subpattern (body : List RegexNode)
  | branch (branches : List (List RegexNode))
  | position
  | category (category : Category)
  | range (first last : Char)
  | other

/-- `_NEGATE_CANDIDATES` -/
def negateCandidates : Path := "abcdefghijkxyz0123456789-_".toList

/-- `_category_sample` -/
def categorySample : Category → Char
  | .digit => '1'
  | .word => 'a'
  | .space => ' '
  | .notDigit => 'a'
  | .notWord => '-'
  | .notSpace => 'x'

/-- `_category_matches`, of a candidate. -/
def categoryMatches (c : Char) : Category → Bool
  | .digit => c.isDigit
  | .word => c.isAlphanum || c == '_'
  | .space => c.isWhitespace
  | .notDigit => !c.isDigit
  | .notWord => !(c.isAlphanum || c == '_')
  | .notSpace => !c.isWhitespace

/-- `_member_matches` -/
def memberMatches (members : List SetMember) (c : Char) : Bool :=
  members.any fun
    | .literal d => d == c
    | .range first last => first ≤ c && c ≤ last
    | .category category => categoryMatches c category

/-- `_first_member_char` -/
def firstMemberChar : List SetMember → Option Char
  | [] => none
  | .literal c :: _ => some c
  | .range first _ :: _ => some first
  | .category category :: _ => some (categorySample category)

/-- `_emit_in` -/
def emitIn (negate : Bool) (members : List SetMember) : Option Char :=
  if negate then negateCandidates.find? fun candidate => !memberMatches members candidate
  else firstMemberChar members

mutual

/-- `_emit_node` -/
def emitNode : RegexNode → Option Path
  | .literal c => some [c]
  | .notLiteral c => some [if c ≠ 'a' then 'a' else 'b']
  | .any => some ['x']
  | .set negate members => (emitIn negate members).map fun c => [c]
  | .repeated minimum body =>
    (emitSeq body).map fun sub =>
      (List.replicate (if 0 < minimum then minimum else 1) sub).flatten
  | .subpattern body => emitSeq body
  | .branch branches => emitBranch branches
  | .position => some []
  | .category category => some [categorySample category]
  | .range first _ => some [first]
  | .other => none

/-- `_emit_seq` -/
def emitSeq : List RegexNode → Option Path
  | [] => some []
  | node :: nodes =>
    match emitNode node with
    | none => none
    | some piece => (emitSeq nodes).map fun rest => piece ++ rest

/-- The loop of `_emit_node` over the branches: the first that has a sample. -/
def emitBranch : List (List RegexNode) → Option Path
  | [] => none
  | branch :: branches => (emitSeq branch).or (emitBranch branches)

end

/-- `_sample_path_for_pattern`; `parse` is the parser of the standard library, `none` where a
pattern has an error. -/
def samplePathForPattern (parse : String → Option (List RegexNode)) (regexes : Regexes)
    (regex : String) : Option Path :=
  match parse regex with
  | none => none
  | some parsed => (emitSeq parsed).filter fun sample => regexes.fullmatch regex sample

theorem fullmatch_of_samplePathForPattern {parse : String → Option (List RegexNode)}
    {regexes : Regexes} {regex : String} {sample : Path}
    (h : samplePathForPattern parse regexes regex = some sample) :
    regexes.fullmatch regex sample = true := by
  unfold samplePathForPattern at h
  cases hparse : parse regex with
  | none => simp [hparse] at h
  | some parsed =>
    simp only [hparse] at h
    exact (Option.filter_eq_some_iff.mp h).2

end TaiSkeleton.AccessControl
