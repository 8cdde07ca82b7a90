import Mathlib.Order.Basic

/-!
# The condition text and its refusals

A policy condition is jq source text. The scan that admits one reads it as a list of characters;
whatever it cannot show evaluable it refuses, saying what was refused and where. Before any
token is read, the source shape confines the text to printable ASCII on one line without `#`.
-/

namespace TaiSkeleton.Authz.TokenFree

/-- The characters of a condition. -/
abbrev Text := List Char

/-- `OWNER_USER_ID_CLAIM`: the one claim a fire can present. -/
def ownerUserIdClaim : String := "owner_user_id"

/-- `_IDENTITY_FIELD`: the context field that holds the token claims. -/
def identityField : String := "identity"

/-- `_OWNER_REFERENCE`. -/
def ownerReference : String := "." ++ identityField ++ "." ++ ownerUserIdClaim

/-! ## Refusals -/

/-- `_EXCERPT_LENGTH`. -/
def excerptLength : ℕ := 32

/-- `_excerpt`: a bounded slice of the condition from the offending construct on. -/
def excerpt (conditionText : Text) (position : ℕ) : Text :=
  (conditionText.drop position).take excerptLength

/-- A `TokenFreeConditionError`: the detail, the offset and the excerpt its message is made of. -/
structure Refusal where
  detail : String
  position : ℕ
  excerpt : Text
deriving DecidableEq, Repr

/-- `_refusal`: the one refusal shape. -/
def refusal (conditionText : Text) (position : ℕ) (detail : String) : Refusal :=
  ⟨detail, position, TokenFree.excerpt conditionText position⟩

/-- An excerpt never echoes more than `excerptLength` characters. -/
theorem length_excerpt_le (conditionText : Text) (position : ℕ) :
    (excerpt conditionText position).length ≤ excerptLength :=
  List.length_take_le _ _

/-- Python's `repr` of a string, characters beyond ASCII taken to be printable. -/
def repr (s : Text) : String :=
  let quote := if '\'' ∈ s ∧ '"' ∉ s then '"' else '\''
  String.ofList (quote :: s.flatMap (escape quote) ++ [quote])
where
  escape (quote c : Char) : Text :=
    if c = quote ∨ c = '\\' then ['\\', c]
    else if c = '\n' then ['\\', 'n']
    else if c = '\r' then ['\\', 'r']
    else if c = '\t' then ['\\', 't']
    else if c.toNat < 32 ∨ c.toNat = 127 then
      ['\\', 'x', Nat.digitChar (c.toNat / 16), Nat.digitChar (c.toNat % 16)]
    else [c]

/-! ## The source shape -/

/-- What the gate says of a character outside the admitted subset. -/
def shapeRefusal (char : Char) : Option String :=
  if char = '#' then
    some ("condition contains '#', which opens a jq comment whose extent the token-free scan does " ++
      "not adjudicate; delete the comment (a '#' inside a string literal is refused too, and has " ++
      "to be rewritten out)")
  else if char = '\n' ∨ char = '\r' then
    some "condition spans more than one line; write it on a single line"
  else if char = '\t' then some "condition contains a tab; separate tokens with spaces"
  else if char < ' ' ∨ char.toNat = 127 then
    some ("condition contains the control character " ++ repr [char] ++ "; remove it")
  else if '~' < char then
    some ("condition contains the non-ASCII character " ++ repr [char] ++ "; the token-free scan " ++
      "reads printable ASCII only, so rewrite the condition without it")
  else none

/-- `_assert_source_shape`: printable ASCII on a single line, with no `#`. -/
def assertSourceShape (conditionText : Text) : Except Refusal Unit :=
  scan conditionText 0
where
  scan : Text → ℕ → Except Refusal Unit
  | [], _ => .ok ()
  | char :: chars, position =>
    match shapeRefusal char with
    | some detail => .error (refusal conditionText position detail)
    | none => scan chars (position + 1)

/-! ## The scan's budget -/

/-- `_MAX_TOKENS`. -/
def maxTokens : ℕ := 256

/-- `_MAX_NESTING_DEPTH`. -/
def maxNestingDepth : ℕ := 32

/-- Why a scan stops early: the condition is refused, or the model's recursion bound is reached. -/
inductive Failure where
  | refused (refusal : Refusal)
  | outOfFuel
deriving DecidableEq, Repr

/-- A scan that refuses the condition. -/
def refuse {α : Type} (conditionText : Text) (position : ℕ) (detail : String) :
    Except Failure α :=
  .error (.refused (refusal conditionText position detail))

/-- `_Budget.spend`: account for one lexed token on top of the `spent` ones. -/
def spend (conditionText : Text) (position spent : ℕ) : Except Failure ℕ :=
  if maxTokens < spent + 1 then
    refuse conditionText position
      ("condition is longer than the " ++ toString maxTokens ++ " tokens the token-free scan will " ++
        "analyze; shorten it or move part of it into a named scope/role")
  else .ok (spent + 1)

/-- `_Budget.descend`: the depth one level further in. Leaving the level again is leaving the
scope of the returned depth. -/
def descend (conditionText : Text) (position depth : ℕ) : Except Failure ℕ :=
  if maxNestingDepth < depth + 1 then
    refuse conditionText position
      ("condition nests more than " ++ toString maxNestingDepth ++ " levels deep, past what the " ++
        "token-free scan will analyze")
  else .ok (depth + 1)

theorem spend_ok {conditionText : Text} {position spent spent' : ℕ}
    (h : spend conditionText position spent = .ok spent') :
    spent' = spent + 1 ∧ spent + 1 ≤ maxTokens := by
  unfold spend refuse at h
  split_ifs at h with hlt
  exact ⟨(Except.ok.inj h).symm, Nat.not_lt.mp hlt⟩

theorem descend_ok {conditionText : Text} {position depth depth' : ℕ}
    (h : descend conditionText position depth = .ok depth') :
    depth' = depth + 1 ∧ depth + 1 ≤ maxNestingDepth := by
  unfold descend refuse at h
  split_ifs at h with hlt
  exact ⟨(Except.ok.inj h).symm, Nat.not_lt.mp hlt⟩

end TaiSkeleton.Authz.TokenFree
