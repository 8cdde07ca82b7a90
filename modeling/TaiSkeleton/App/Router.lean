import TaiSkeleton.App.RouteRegistry

/-!
# The router

The router goes through the routes in the order of their registration and dispatches to the first
one whose template matches the whole path and that serves the method. A template's parameter
matches by its convertor, `str` where it names none.
-/

namespace TaiSkeleton.App

open AccessControl (Path isHexDigit)

/-- The convertors of the router. -/
inductive Convertor where
  | str | path | int | float | uuid
deriving DecidableEq

/-- `CONVERTOR_TYPES` -/
def Convertor.ofName : Path → Option Convertor
  | ['s', 't', 'r'] => some .str
  | ['p', 'a', 't', 'h'] => some .path
  | ['i', 'n', 't'] => some .int
  | ['f', 'l', 'o', 'a', 't'] => some .float
  | ['u', 'u', 'i', 'd'] => some .uuid
  | _ => none

/-- Hexadecimal digits in groups of the given lengths, with or without a hyphen between groups. -/
def isHexGroups : List ℕ → Path → Bool
  | [], text => text.isEmpty
  | n :: groups, text =>
    (text.take n).length == n && (text.take n).all isHexDigit &&
      (isHexGroups groups (text.drop n) ||
        !groups.isEmpty && ['-'].isPrefixOf (text.drop n) && isHexGroups groups (text.drop (n + 1)))

/-- Whether the regular expression of a convertor matches the whole text: `[^/]+`, `.*`, `[0-9]+`,
`[0-9]+(\.[0-9]+)?`, or the digits of a UUID with optional hyphens. -/
def Convertor.admits : Convertor → Path → Bool
  | .str, text => text != [] && text.all (· != '/')
  | .path, text => text.all (· != '\n')
  | .int, text => text != [] && text.all Char.isDigit
  | .float, text =>
    let whole := text.takeWhile Char.isDigit
    let rest := text.drop whole.length
    whole != [] && (rest.isEmpty ||
      ['.'].isPrefixOf rest && rest.tail != [] && rest.tail.all Char.isDigit)
  | .uuid, text => isHexGroups [8, 4, 4, 4, 12] text

/-- A piece of a path template as the router matches it. -/
inductive RouterPiece where
  | char (c : Char)
  | param (convertor : Convertor)
deriving DecidableEq

/-- `[a-zA-Z_]` -/
def isNameStart (c : Char) : Bool := c.isAlpha || c == '_'

/-- `[a-zA-Z_][a-zA-Z0-9_]*` at the start of a text: how many characters it takes. -/
def paramNameLength : Path → Option ℕ
  | [] => none
  | c :: text =>
    if isNameStart c then some (1 + (text.takeWhile fun d => isNameStart d || d.isDigit).length)
    else none

/-- The parameter that the text after a `{` spells, and how many characters it takes; a convertor
that does not exist is `some none`. -/
def routerParameter (text : Path) : Option (Option Convertor × ℕ) := do
  let n ← paramNameLength text
  match text.drop n with
  | '}' :: _ => some (some .str, n + 1)
  | ':' :: rest =>
    let m ← paramNameLength rest
    if ['}'].isPrefixOf (rest.drop m) then some (Convertor.ofName (rest.take m), n + m + 2)
    else none
  | _ => none

/-- `compile_path`, as the pieces of the pattern; `skip` of the next characters belong to the
parameter before. A convertor that does not exist is refused. -/
def routerPieces : Path → ℕ → Option (List RouterPiece)
  | [], _ => some []
  | _ :: text, skip + 1 => routerPieces text skip
  | c :: text, 0 =>
    match if c = '{' then routerParameter text else none with
    | some (none, _) => none
    | some (some convertor, length) => (routerPieces text length).map (.param convertor :: ·)
    | none => (routerPieces text 0).map (.char c :: ·)

/-- Whether the pattern of the pieces matches the whole path. -/
def routerMatches : List RouterPiece → Path → Bool
  | [], path => path.isEmpty
  | .char c :: pieces, path =>
    match path with
    | [] => false
    | d :: path => c == d && routerMatches pieces path
  | .param convertor :: pieces, path =>
    (List.range (path.length + 1)).any fun n =>
      convertor.admits (path.take n) && routerMatches pieces (path.drop n)

/-- Whether the router takes the route for a request. -/
def RouteMetadata.takes (r : RouteMetadata) (path : Path) (method : String) : Bool :=
  ((routerPieces r.path 0).any fun pieces => routerMatches pieces path) &&
    (servedMethods r).contains method

/-- The route that the router dispatches to, the routes in the order of registration. -/
def dispatch (recorded : List RouteMetadata) (path : Path) (method : String) :
    Option RouteMetadata :=
  recorded.find? fun r => r.takes path method

end TaiSkeleton.App
