import TaiSkeleton.Authz.TokenFree.Source

/-!
# The lexer of the token-free scan

The lexer walks the condition with an offset into the whole text; `rest` is always the text
from that offset on. A string literal is skipped together with the `\(...)` holes in it, whose
bodies are lexed later as the code they are. Recursion that no structure bounds runs on `fuel`.
-/

namespace TaiSkeleton.Authz.TokenFree

/-- `_Kind`: the lexical classes of the condition grammar. -/
inductive Kind where
  | field | ident | variable | number | string | format | operator | end
deriving DecidableEq, Repr

/-- `_Interpolation`: a `\(...)` hole, as a half-open span of the condition text. -/
structure Interpolation where
  start : ℕ
  stop : ℕ
deriving DecidableEq, Repr

/-- `_Token`, with the offset `stop` just past it, which the source keeps in its loops. -/
structure Token where
  kind : Kind
  text : String
  position : ℕ
  stop : ℕ
  interpolations : List Interpolation := []
deriving DecidableEq, Repr

/-! ## Character classes and tables -/

/-- `_IDENT_START`. -/
def isIdentStart (c : Char) : Bool := c.isAlpha || c == '_'

/-- `_IDENT_CHARS`. -/
def isIdentChar (c : Char) : Bool := isIdentStart c || c.isDigit

/-- `_OPERATORS`, longest first so a prefix never shadows a longer operator. -/
def operators : List String :=
  ["?//", "//=", "|=", "+=", "-=", "*=", "/=", "%=", "==", "!=", "<=", ">=", "//", "..", "=", "<",
    ">", "|", ",", "+", "-", "*", "/", "%", "(", ")", "[", "]", "\x7b", "\x7d", ":", ";", "?", "."]

/-- `_STRING_ESCAPES`. -/
def stringEscapes : List (Char × Char) :=
  [('"', '"'), ('\\', '\\'), ('/', '/'), ('b', '\x08'), ('f', '\x0c'), ('n', '\n'), ('r', '\r'),
    ('t', '\t')]

/-! ## String literals -/

variable (conditionText : Text)

mutual

/-- `_lex_string`: the literal whose opening quote is at `start`, with `rest` after that quote. -/
def lexString (fuel depth start : ℕ) (rest : Text) : Except Failure (Token × Text) :=
  match fuel with
  | 0 => .error .outOfFuel
  | fuel + 1 => do
    let depth ← descend conditionText start depth
    stringBody fuel depth start rest (start + 1) [] []

/-- The loop of `_lex_string`; `parts` and `holes` hold what it has collected, latest first. -/
def stringBody (fuel depth start : ℕ) (rest : Text) (index : ℕ) (parts : Text)
    (holes : List Interpolation) : Except Failure (Token × Text) :=
  match fuel with
  | 0 => .error .outOfFuel
  | fuel + 1 =>
    match rest with
    | [] => refuse conditionText start "condition contains an unterminated string literal"
    | char :: rest =>
      if char = '"' then
        .ok (⟨.string, String.ofList parts.reverse, start, index + 1, holes.reverse⟩, rest)
      else if char ≠ '\\' then
        stringBody fuel depth start rest (index + 1) (char :: parts) holes
      else
        match rest with
        | [] => refuse conditionText start "condition contains an unterminated string literal"
        | escape :: rest =>
          if escape = '(' then do
            let (bodyEnd, rest) ← scanInterpolation fuel depth (index + 2) rest
            stringBody fuel depth start rest (bodyEnd + 1) parts (⟨index + 2, bodyEnd⟩ :: holes)
          else
            match stringEscapes.lookup escape with
            | none => refuse conditionText index
                ("condition contains the unsupported escape '\\" ++ escape.toString ++ "'")
            | some decoded =>
              stringBody fuel depth start rest (index + 2) (decoded :: parts) holes

/-- `_scan_interpolation`: the offset of the `)` that closes the body opening at `start`, with
the text after it. -/
def scanInterpolation (fuel depth start : ℕ) (rest : Text) : Except Failure (ℕ × Text) :=
  match fuel with
  | 0 => .error .outOfFuel
  | fuel + 1 => do
    let depth ← descend conditionText (start - 2) depth
    scanBody fuel depth start 1 rest start

/-- The loop of `_scan_interpolation`, inside `nesting` open parentheses. -/
def scanBody (fuel depth start nesting : ℕ) (rest : Text) (index : ℕ) :
    Except Failure (ℕ × Text) :=
  match fuel with
  | 0 => .error .outOfFuel
  | fuel + 1 =>
    match rest with
    | [] => refuse conditionText (start - 2)
        "condition contains an unterminated string interpolation"
    | char :: rest =>
      -- A nested string is skipped whole: a parenthesis inside one never closes the body.
      if char = '"' then do
        let (token, rest) ← lexString fuel depth index rest
        scanBody fuel depth start nesting rest token.stop
      else if char = '(' then scanBody fuel depth start (nesting + 1) rest (index + 1)
      else if char = ')' then
        if nesting - 1 = 0 then .ok (index, rest)
        else scanBody fuel depth start (nesting - 1) rest (index + 1)
      else scanBody fuel depth start nesting rest (index + 1)

end

/-! ## Tokens -/

/-- How many of the characters before the window's end a name that starts there takes. -/
def nameLength (window : Text) : ℕ := (window.takeWhile isIdentChar).length

/-- The digits `_lex_number` takes for an exponent, with its mark and sign; `0` when there is
no digit to take. -/
def exponentLength (window : Text) : ℕ :=
  match window with
  | mark :: sign :: rest =>
    if mark = 'e' ∨ mark = 'E' then
      if sign = '+' ∨ sign = '-' then
        if (rest.takeWhile Char.isDigit).length = 0 then 0
        else 2 + (rest.takeWhile Char.isDigit).length
      else if sign.isDigit then 1 + ((sign :: rest).takeWhile Char.isDigit).length
      else 0
    else 0
  | _ => 0

/-- The `.` and the digits after it, when there is a digit. -/
def fractionLength (window : Text) : ℕ :=
  match window with
  | point :: digit :: rest =>
    if point = '.' ∧ digit.isDigit then 1 + ((digit :: rest).takeWhile Char.isDigit).length else 0
  | _ => 0

/-- `_lex_number`: how many characters of the window the numeric literal at its start takes. -/
def numberLength (window : Text) : ℕ :=
  let whole := (window.takeWhile Char.isDigit).length
  let mantissa := whole + fractionLength (window.drop whole)
  mantissa + exponentLength (window.drop mantissa)

/-- The token of `length` characters at `index`, `skip` of them not part of its text. -/
def plainToken (kind : Kind) (rest : Text) (index skip length : ℕ) : Token × Text :=
  (⟨kind, String.ofList ((rest.take length).drop skip), index, index + length, []⟩,
    rest.drop length)

/-- The operator at the start of `rest`: the first of the table that is a prefix of it. -/
def operatorAt (rest : Text) : Option String :=
  operators.find? fun candidate => candidate.toList.isPrefixOf rest

/-- One token of `_lex`, read at `index` from `char :: rest`. Only string literals and operators
are looked up past `stop`. -/
def nextToken (fuel depth stop index : ℕ) (char : Char) (rest : Text) :
    Except Failure (Token × Text) :=
  let window := (char :: rest).take (stop - index)
  if char = '"' then lexString conditionText fuel depth index rest
  else if char = '$' then
    let length := nameLength (window.drop 1)
    if length = 0 then refuse conditionText index "condition contains a nameless variable"
    else .ok (plainToken .variable (char :: rest) index 1 (1 + length))
  else if char = '@' then
    .ok (plainToken .format (char :: rest) index 0 (1 + nameLength (window.drop 1)))
  else if char.isDigit then
    .ok (plainToken .number (char :: rest) index 0 (numberLength window))
  else if isIdentStart char then
    .ok (plainToken .ident (char :: rest) index 0 (nameLength window))
  else if char = '.' ∧ ((window.drop 1).head?.any isIdentStart) then
    .ok (plainToken .field (char :: rest) index 1 (1 + nameLength (window.drop 1)))
  else if char = '.' ∧ (window.drop 1).head? = some '"' then do
    let (quoted, rest) ← lexString conditionText fuel depth (index + 1) (rest.drop 1)
    if quoted.interpolations ≠ [] then
      refuse conditionText quoted.position "condition names a field by an interpolated string"
    else .ok (⟨.field, quoted.text, quoted.position - 1, quoted.stop, []⟩, rest)
  else
    match operatorAt (char :: rest) with
    | none => refuse conditionText index
        ("condition contains the unrecognized character " ++ repr [char])
    | some operator => .ok (plainToken .operator (char :: rest) index 0 operator.length)

/-- `_lex` from `index` up to `stop`: the tokens, each spent from the budget, and the tokens
spent by then. The end token is spent but not kept: it is what is read after the last token. -/
def lex (fuel depth stop : ℕ) (rest : Text) (index spent : ℕ) :
    Except Failure (List Token × ℕ) :=
  match fuel with
  | 0 => .error .outOfFuel
  | fuel + 1 =>
    match rest with
    | [] => do return ([], ← spend conditionText stop spent)
    | char :: rest =>
      if stop ≤ index then do return ([], ← spend conditionText stop spent)
      else if char = ' ' then lex fuel depth stop rest (index + 1) spent
      else do
        let (token, rest) ← nextToken conditionText fuel depth stop index char rest
        let spent ← spend conditionText token.position spent
        let (tokens, spent) ← lex fuel depth stop rest token.stop spent
        return (token :: tokens, spent)

end TaiSkeleton.Authz.TokenFree
