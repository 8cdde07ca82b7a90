import TaiSkeleton.Authz.TokenFree.Ast
import TaiSkeleton.Authz.TokenFree.Lexer

/-!
# The parser of the token-free scan

A recursive-descent parser for the allowlisted condition grammar. Its rules call themselves
through three of them only, `pipe`, `alternative` and `unary`; `Rules` holds those three, and
`rules` ties the knot on `fuel`. The parser is a reader of the nesting depth and a state of the
tokens ahead and the tokens spent, which the holes of a string literal are lexed and parsed on.
-/

namespace TaiSkeleton.Authz.TokenFree

/-! ## The allowlist -/

/-- `_BUILTIN_ARITIES`. -/
def builtinArities : List (String × List ℕ) :=
  [("not", [0]), ("length", [0]), ("ascii_downcase", [0]), ("startswith", [1]), ("endswith", [1]),
    ("contains", [1]), ("test", [1, 2]), ("IN", [1, 2]), ("map", [1]), ("any", [0, 1, 2]),
    ("all", [0, 1, 2])]

/-- `_NAMED_REFUSALS`: names the allowlist already refuses, with the reason. -/
def namedRefusals : List (String × String) :=
  [("def", "defines a function, which can rename any builtin and so defeats the per-builtin rule"),
    ("env", "reads the process environment, which is not part of the auth context"),
    ("input", "reads a value from outside the auth context"),
    ("inputs", "reads values from outside the auth context"),
    ("now", "reads the wall clock, which is nondeterministic and outside the auth context; " ++
      "a fire reads the clock from .system.time"),
    ("localtime", "is outside the allowlisted builtins; express date arithmetic as a " ++
      "comparison against .system.*, which a fire can read"),
    ("gmtime", "is outside the allowlisted builtins; express date arithmetic as a " ++
      "comparison against .system.*, which a fire can read")]

/-- `_NAMED_VARIABLE_REFUSALS`. -/
def namedVariableRefusals : List (String × String) :=
  [("ENV", "reads the process environment, which is not part of the auth context"),
    ("__loc__", "reads the program's own source location, which is not part of the auth context")]

/-- `_KEYWORD_LITERALS`. -/
def keywordLiterals : List String := ["true", "false", "null"]

/-- `_COMPARISONS`. -/
def comparisons : List String := ["==", "!=", "<", "<=", ">", ">="]

/-- `_ADDITIVE`. -/
def additives : List String := ["+", "-"]

/-- `_MULTIPLICATIVE`. -/
def multiplicatives : List String := ["*", "/", "%"]

/-! ## The parser monad -/

/-- The tokens ahead, the offset they end at, and the tokens spent so far. -/
structure Cursor where
  tokens : List Token
  stop : ℕ
  spent : ℕ

/-- `_peek`: the next token, or the end token past the last. -/
def Cursor.next (cursor : Cursor) : Token :=
  cursor.tokens.headD ⟨.end, "", cursor.stop, cursor.stop, []⟩

/-- A parser, given the nesting depth it runs at. -/
def Parser (α : Type) := ℕ → Cursor → Except Failure (α × Cursor)

instance : Monad Parser where
  pure a := fun _ cursor => .ok (a, cursor)
  bind x f := fun depth cursor =>
    match x depth cursor with
    | .error e => .error e
    | .ok (a, cursor) => f a depth cursor

variable (conditionText : Text)

/-- `_peek`. -/
def peek : Parser Token := fun _ cursor => .ok (cursor.next, cursor)

/-- `_advance`, when the next token is one that `admits` says. -/
def accept (admits : Token → Bool) : Parser (Option Token) := fun _ cursor =>
  match cursor.tokens with
  | [] => .ok (none, cursor)
  | token :: tokens =>
    if admits token then .ok (some token, { cursor with tokens }) else .ok (none, cursor)

/-- `_refuse`. -/
def refuseAt {α : Type} (token : Token) (detail : String) : Parser α := fun _ _ =>
  refuse conditionText token.position detail

/-- A bound of the model's recursion, not of the source's. -/
def outOfFuel {α : Type} : Parser α := fun _ _ => .error .outOfFuel

/-- `_descend`, with the level left again after `p`. -/
def deeper {α : Type} (p : Parser α) : Parser α := fun depth cursor => do
  p (← descend conditionText cursor.next.position depth) cursor

/-- `_describe`: how a token reads in a refusal message. -/
def describe (token : Token) : String :=
  match token.kind with
  | .end => "the end of the condition"
  | _ => repr token.text.toList

/-- `_at_operator`, of a token. -/
def Token.isOperator (texts : List String) (token : Token) : Bool :=
  token.kind == .operator && texts.contains token.text

/-- `_at_keyword`, of a token. -/
def Token.isKeyword (keyword : String) (token : Token) : Bool :=
  token.kind == .ident && token.text == keyword

def Token.hasKind (kind : Kind) (token : Token) : Bool := token.kind == kind

/-- `_expect_operator`. -/
def expectOperator (text : String) : Parser Token := do
  match ← accept (·.isOperator [text]) with
  | some token => return token
  | none =>
    let token ← peek
    refuseAt conditionText token
      ("condition is missing the " ++ repr text.toList ++ " expected before " ++ describe token)

/-! ## The rules -/

/-- The rules that call themselves, and the bound of the loops at this level. -/
structure Rules where
  fuel : ℕ
  pipe : Parser Node
  alternative : Parser Node
  unary : Parser Node

/-- The loop of a left-associative operator level, after its first operand `left`. -/
def leftRest (admits : Token → Bool) (operand : Parser Node) : ℕ → Node → Parser Node
  | 0, _ => outOfFuel
  | fuel + 1, left => do
    match ← accept admits with
    | none => return left
    | some token =>
      let right ← operand
      leftRest admits operand fuel (.binary token.position token.text left right)

/-- A left-associative operator level. -/
def leftAssociative (fuel : ℕ) (admits : Token → Bool) (operand : Parser Node) : Parser Node := do
  leftRest admits operand fuel (← operand)

variable (self : Rules)

/-- `_multiplicative` -/
def multiplicative : Parser Node :=
  leftAssociative self.fuel (·.isOperator multiplicatives) self.unary

/-- `_additive` -/
def additive : Parser Node :=
  leftAssociative self.fuel (·.isOperator additives) (multiplicative self)

/-- `_comparison` -/
def comparison : Parser Node := do
  let left ← additive self
  match ← accept (·.isOperator comparisons) with
  | none => return left
  | some token => return .binary token.position token.text left (← additive self)

/-- `_conjunction` -/
def conjunction : Parser Node := leftAssociative self.fuel (·.isKeyword "and") (comparison self)

/-- `_disjunction` -/
def disjunction : Parser Node := leftAssociative self.fuel (·.isKeyword "or") (conjunction self)

/-- `_alternative` -/
def alternative : Parser Node := deeper conditionText do
  let left ← disjunction self
  match ← accept (·.isOperator ["//"]) with
  | none => return left
  | some token => return .binary token.position "//" left (← self.alternative)

/-- `_comma` -/
def comma : Parser Node := leftAssociative self.fuel (·.isOperator [","]) self.alternative

/-- `_pipe` -/
def pipe : Parser Node := deeper conditionText do
  let left ← comma self
  match ← accept (·.isOperator ["|"]) with
  | none => return left
  | some token => return .binary token.position "|" left (← self.pipe)

/-- `parse`: the whole token stream as one expression. -/
def parse : Parser Node := do
  let node ← self.pipe
  let token ← peek
  if token.kind ≠ .end then
    refuseAt conditionText token ("condition does not parse from " ++ describe token)
  else return node

/-- `_interpolation`: the body of a hole, lexed and parsed under the enclosing budget. -/
def interpolation (hole : Interpolation) : Parser Node := fun depth cursor => do
  let depth ← descend conditionText hole.start depth
  let (tokens, spent) ← lex conditionText self.fuel depth hole.stop
    (conditionText.drop hole.start) hole.start cursor.spent
  let (node, inner) ← parse conditionText self depth ⟨tokens, hole.stop, spent⟩
  return (node, { cursor with spent := inner.spent })

/-- The holes of a string literal, in order. -/
def interpolationList : List Interpolation → Parser (List Node)
  | [] => return []
  | hole :: holes => do
    let node ← interpolation conditionText self hole
    return node :: (← interpolationList holes)

/-- The arguments of a call after its opening parenthesis. -/
def argumentList : ℕ → Parser (List Node)
  | 0 => outOfFuel
  | fuel + 1 => do
    let argument ← self.pipe
    match ← accept (·.isOperator [";"]) with
    | none => return [argument]
    | some _ => return argument :: (← argumentList fuel)

/-- The arguments of a call, none when no parenthesis follows its name. -/
def callArguments : Parser (List Node) := do
  match ← accept (·.isOperator ["("]) with
  | none => return []
  | some _ =>
    let arguments ← argumentList self self.fuel
    let _ ← expectOperator conditionText ")"
    return arguments

/-- `_identifier`, after its name `token`. -/
def identifier (token : Token) : Parser Node :=
  if token.text ∈ keywordLiterals then return .constant token.position
  else
    match namedRefusals.lookup token.text with
    | some named =>
      refuseAt conditionText token
        ("condition uses " ++ repr token.text.toList ++ ", which " ++ named)
    | none => do
      let arguments ← callArguments conditionText self
      match builtinArities.lookup token.text with
      | none =>
        refuseAt conditionText token
          ("condition uses the builtin " ++ repr token.text.toList ++ ", which is outside the set " ++
            "a background execution can be authorized against")
      | some arities =>
        if arguments.length ∉ arities then
          refuseAt conditionText token
            ("condition calls the builtin " ++ repr token.text.toList ++ " with " ++
              toString arguments.length ++ " arguments")
        else return .call token.position token.text arguments

/-- Whether an object can be built under the key. -/
def Token.isStaticKey (key : Token) : Bool :=
  key.kind == .ident || key.kind == .string && key.interpolations.isEmpty

/-- The pairs of an object construction, of which the values are kept. -/
def objectPairs : ℕ → Parser (List Node)
  | 0 => outOfFuel
  | fuel + 1 => do
    match ← accept Token.isStaticKey with
    | none =>
      let key ← peek
      refuseAt conditionText key "condition builds an object under a key that is not a static name"
    | some _ =>
      let _ ← expectOperator conditionText ":"
      let value ← self.alternative
      match ← accept (·.isOperator [","]) with
      | none => return [value]
      | some _ => return value :: (← objectPairs fuel)

/-- `_object`, after its opening brace `token`. -/
def object (token : Token) : Parser Node := do
  match ← accept (·.isOperator ["\x7d"]) with
  | some _ => return .objectConstruction token.position []
  | none =>
    let values ← objectPairs conditionText self self.fuel
    let _ ← expectOperator conditionText "\x7d"
    return .objectConstruction token.position values

/-- `_operator_term`, after the operators it takes: `.`, `(`, `[` and `{`. -/
def operatorTerm (token : Token) : Parser Node :=
  if token.text = "." then return .root token.position
  else if token.text = "(" then do
    let node ← self.pipe
    let _ ← expectOperator conditionText ")"
    return node
  else if token.text = "[" then do
    match ← accept (·.isOperator ["]"]) with
    | some _ => return .arrayConstruction token.position none
    | none =>
      let element ← self.pipe
      let _ ← expectOperator conditionText "]"
      return .arrayConstruction token.position (some element)
  else object conditionText self token

/-- `_primary` -/
def primary : Parser Node := do
  match ← accept (·.isOperator [".", "(", "[", "\x7b"]) with
  | some token => operatorTerm conditionText self token
  | none =>
  match ← accept (·.hasKind .string) with
  | some token =>
    return .string token.position token.text
      (← interpolationList conditionText self token.interpolations)
  | none =>
  match ← accept (·.hasKind .number) with
  | some token => return .constant token.position
  | none =>
  match ← accept (·.hasKind .variable) with
  | some token =>
    match namedVariableRefusals.lookup token.text with
    | some named =>
      refuseAt conditionText token ("condition uses '$" ++ token.text ++ "', which " ++ named)
    | none => return .var token.position token.text
  | none =>
  match ← accept (·.hasKind .ident) with
  | some token => identifier conditionText self token
  | none =>
    let token ← peek
    match token.kind with
    -- The suffix loop consumes the field: a leading field is a projection of the input.
    | .field => return .root token.position
    | .format =>
      refuseAt conditionText token
        ("condition uses the format string " ++ repr token.text.toList ++
          ", which serializes its whole input")
    | .operator =>
      if token.text = ".." then
        refuseAt conditionText token
          "condition uses recursive descent '..', which reads every value in the auth context"
      else
        refuseAt conditionText token
          ("condition uses the unsupported operator " ++ repr token.text.toList)
    | _ => refuseAt conditionText token "condition ends before the expression is complete"

/-- The loop of `_postfix` over the suffixes of a term. -/
def suffixLoop : ℕ → Parser (List Suffix)
  | 0 => outOfFuel
  | fuel + 1 => do
    match ← accept (·.hasKind .field) with
    | some token => return .field token.position token.text :: (← suffixLoop fuel)
    | none =>
    match ← accept (·.isOperator ["["]) with
    | some token =>
      match ← accept (·.isOperator ["]"]) with
      | some _ => return .index token.position none :: (← suffixLoop fuel)
      | none =>
        let key ← self.pipe
        let _ ← expectOperator conditionText "]"
        return .index token.position (some key) :: (← suffixLoop fuel)
    | none =>
    match ← accept (·.isOperator ["?"]) with
    | some token => return .optional token.position :: (← suffixLoop fuel)
    | none => return []

/-- What `_postfix` does with a term and its suffixes when `as` may follow. -/
def binding (node : Node) : Parser Node := do
  match ← accept (·.isKeyword "as") with
  | none => return node
  | some token =>
    match ← accept (·.hasKind .variable) with
    | none =>
      let other ← peek
      refuseAt conditionText other "condition binds to something other than a plain variable name"
    | some variableToken =>
      let _ ← expectOperator conditionText "|"
      return .bind token.position node variableToken.text (← self.pipe)

/-- `_postfix` -/
def postfixTerm : Parser Node := do
  let start ← peek
  let term ← primary conditionText self
  let suffixes ← suffixLoop conditionText self self.fuel
  binding conditionText self
    (if suffixes.isEmpty then term else .projection start.position term suffixes)

/-- `_unary` -/
def unary : Parser Node := deeper conditionText do
  match ← accept (·.isOperator ["-"]) with
  | some token => return .negate token.position (← self.unary)
  | none =>
  match ← accept (·.isKeyword "try") with
  | some token =>
    let body ← self.unary
    match ← accept (·.isKeyword "catch") with
    | none => return .tryCatch token.position body none
    | some _ => return .tryCatch token.position body (some (← self.unary))
  | none => postfixTerm conditionText self

/-- The rules, `fuel` calls deep. -/
def rules : ℕ → Rules
  | 0 => ⟨0, outOfFuel, outOfFuel, outOfFuel⟩
  | fuel + 1 => ⟨fuel + 1, pipe conditionText (rules fuel), alternative conditionText (rules fuel),
      unary conditionText (rules fuel)⟩

/-- The parse of a whole condition: `_lex`, then `_Parser(...).parse()`, on one budget. -/
def parseCondition (fuel : ℕ) : Except Failure Node := do
  let (tokens, spent) ← lex conditionText fuel 0 conditionText.length conditionText 0 0
  let (node, _) ← parse conditionText (rules conditionText fuel) 0
    ⟨tokens, conditionText.length, spent⟩
  return node

end TaiSkeleton.Authz.TokenFree
