import TaiSkeleton.Lib.JsonText

/-!
# JSON values

`json.loads` of bytes: they are decoded, cut into tokens, and read by an automaton whose stack
holds the open containers. The token that opens one container too many for the recursion limit is
refused on its own account; every other refusal is a `ValueError`.
-/

namespace Lib.JsonText

/-! ## Tokens -/

/-- The two containers. -/
inductive Container where
  | object | array
deriving DecidableEq

/-- A token. What a number or a literal is worth is left out. -/
inductive Token where
  | opens (container : Container)
  | closes (container : Container)
  | colon | comma
  | text (s : PyString)
  | scalar
deriving DecidableEq

/-- `[0-9]` -/
def isDigit (c : CodePoint) : Bool := 48 ≤ c.val && c.val < 58

/-- How many digits a text starts with. -/
def digits (text : PyString) : ℕ := (text.takeWhile isDigit).length

/-- The integer part of a number: a zero, or digits that start with no zero. -/
def integerLength : PyString → Option ℕ
  | [] => none
  | c :: text =>
    if c = codePoint '0' then some 1
    else if isDigit c then some (digits (c :: text))
    else none

/-- The fraction of a number, if it has one. -/
def fractionLength : PyString → ℕ
  | [] => 0
  | c :: text => if c = codePoint '.' ∧ digits text ≠ 0 then digits text + 1 else 0

/-- The exponent of a number, if it has one. -/
def exponentLength : PyString → ℕ
  | [] => 0
  | c :: text =>
    let sign := if text.head? = some (codePoint '+') ∨ text.head? = some (codePoint '-') then 1
      else 0
    if (c = codePoint 'e' ∨ c = codePoint 'E') ∧ digits (text.drop sign) ≠ 0 then
      1 + sign + digits (text.drop sign)
    else 0

/-- How many digits `int` takes. -/
def maxStrDigits : ℕ := 4300

/-- The length of the number that a text starts with; a longer integer is a `ValueError`. -/
def numberLength (text : PyString) : Option ℕ :=
  let sign := if text.head? = some (codePoint '-') then 1 else 0
  match integerLength (text.drop sign) with
  | none => none
  | some integer =>
    let fraction := fractionLength (text.drop (sign + integer))
    let exponent := exponentLength (text.drop (sign + integer + fraction))
    if fraction = 0 ∧ exponent = 0 ∧ maxStrDigits < integer then none
    else some (sign + integer + fraction + exponent)

/-- The constants, those that are not JSON among them. -/
def literals : List PyString :=
  ["null", "true", "false", "NaN", "Infinity", "-Infinity"].map pyString

/-- The length of the constant or the number that a text starts with. -/
def scalarLength (text : PyString) : Option ℕ :=
  match literals.find? (·.isPrefixOf text) with
  | some literal => some literal.length
  | none => numberLength text

/-- The tokens of one character. -/
def punctuation : List (CodePoint × Token) :=
  [(codePoint '\x7b', .opens .object), (codePoint '\x7d', .closes .object),
    (codePoint '[', .opens .array), (codePoint ']', .closes .array), (codePoint ':', .colon),
    (codePoint ',', .comma)]

/-- The token that begins with a character, and how many characters it takes after it. -/
def scanToken (c : CodePoint) (text : PyString) : Option (Token × ℕ) :=
  match punctuation.lookup c with
  | some token => some (token, 0)
  | none =>
    if c = quote then (scanString text 0).map fun (s, n) => (.text s, n)
    else (scalarLength (c :: text)).map fun n => (.scalar, n - 1)

/-- The space of JSON. -/
def spaces : List CodePoint := [32, 9, 10, 13]

/-- The tokens of a text, up to one that is none; `skip` of the next characters belong to the token
before. -/
def tokens : PyString → ℕ → List (Option Token)
  | [], _ => []
  | _ :: text, skip + 1 => tokens text skip
  | c :: text, 0 =>
    if c ∈ spaces then tokens text 0
    else
      match scanToken c text with
      | some (token, length) => some token :: tokens text length
      | none => [none]

theorem tokens_skip (before text : PyString) :
    tokens (before ++ text) before.length = tokens text 0 := by
  induction before with
  | nil => rfl
  | cons c before ih =>
    rw [List.cons_append, List.length_cons, tokens]
    exact ih

/-- A dumped string is one token. -/
theorem tokens_dumpString (s rest : PyString) :
    tokens (dumpString s ++ rest) 0 = some (.text (joinPairs s)) :: tokens rest 0 := by
  have htext : dumpString s ++ rest = quote :: (escapeText s ++ quote :: rest) := by
    simp [dumpString]
  have hlookup : punctuation.lookup quote = none := by decide
  have hscan : scanToken quote (escapeText s ++ quote :: rest) =
      some (.text (joinPairs s), (escapeText s).length + 1) := by
    rw [scanToken, hlookup]
    dsimp only
    rw [if_pos rfl, scanString_escapeText]
    rfl
  have hskip := tokens_skip (escapeText s ++ [quote]) rest
  rw [List.length_append, List.append_assoc] at hskip
  rw [htext, tokens, if_neg (by decide), hscan]
  exact congrArg _ hskip

/-- A character of punctuation is one token. -/
theorem tokens_punctuation {c : CodePoint} {token : Token}
    (h : punctuation.lookup c = some token) (rest : PyString) :
    tokens (c :: rest) 0 = some token :: tokens rest 0 := by
  have hspace : ∀ pair ∈ punctuation, pair.1 ∉ spaces := by decide
  rw [tokens, if_neg (hspace _ (mem_of_lookup h)), scanToken, h]

/-! ## The automaton -/

/-- A value that is read. -/
inductive JsonValue where
  | text (s : PyString)
  | object (members : List (PyString × JsonValue))
  | array (items : List JsonValue)
  | scalar

/-- A container that is open, an object with the key whose value comes next. -/
inductive Frame where
  | object (members : List (PyString × JsonValue)) (key : PyString)
  | array (items : List JsonValue)

/-- What comes next. -/
inductive Expects where
  | value
  | valueOrClose
  | key
  | keyOrClose
  | colon
  | commaOrClose
  | nothing (value : JsonValue)

/-- A text so far. -/
structure Parse where
  stack : List Frame
  expects : Expects

namespace Parse

/-- Before the text. -/
def start : Parse := ⟨[], .value⟩

/-- A value is complete. -/
def put (stack : List Frame) (value : JsonValue) : Parse :=
  match stack with
  | [] => ⟨[], .nothing value⟩
  | .object members key :: stack =>
    ⟨.object (members ++ [(key, value)]) key :: stack, .commaOrClose⟩
  | .array items :: stack => ⟨.array (items ++ [value]) :: stack, .commaOrClose⟩

/-- A token where a value is expected. -/
def beginValue (stack : List Frame) : Token → Option Parse
  | .text s => some (put stack (.text s))
  | .scalar => some (put stack .scalar)
  | .opens .object => some ⟨.object [] [] :: stack, .keyOrClose⟩
  | .opens .array => some ⟨.array [] :: stack, .valueOrClose⟩
  | _ => none

/-- A token that closes the innermost container. -/
def close : List Frame → Container → Option Parse
  | .object members _ :: stack, .object => some (put stack (.object members))
  | .array items :: stack, .array => some (put stack (.array items))
  | _, _ => none

/-- A key of the innermost object. -/
def name : List Frame → Token → Option Parse
  | .object members _ :: stack, .text s => some ⟨.object members s :: stack, .colon⟩
  | _, _ => none

/-- The comma after a value. -/
def separate : List Frame → Option Parse
  | .object members key :: stack => some ⟨.object members key :: stack, .key⟩
  | .array items :: stack => some ⟨.array items :: stack, .value⟩
  | [] => none

/-- One token more, with no limit to the stack. -/
def step (p : Parse) (token : Token) : Option Parse :=
  match p.expects, token with
  | .value, token => beginValue p.stack token
  | .valueOrClose, .closes container => close p.stack container
  | .valueOrClose, token => beginValue p.stack token
  | .key, token => name p.stack token
  | .keyOrClose, .closes container => close p.stack container
  | .keyOrClose, token => name p.stack token
  | .colon, .colon => some ⟨p.stack, .value⟩
  | .colon, _ => none
  | .commaOrClose, .comma => separate p.stack
  | .commaOrClose, .closes container => close p.stack container
  | .commaOrClose, _ => none
  | .nothing _, _ => none

/-- One token more, or `none` where the text has none. -/
def stepToken (p : Parse) (token : Option Token) : Option Parse := token.bind p.step

end Parse

/-- What `json.loads` raises of bytes. -/
inductive JsonError where
  | value | recursion
deriving DecidableEq

/-- The tokens read from a text so far; `spare` containers may be open beside the outermost one. -/
def parse (spare : ℕ) : Parse → List (Option Token) → Except JsonError JsonValue
  | p, [] =>
    match p.expects with
    | .nothing value => .ok value
    | _ => .error .value
  | p, token :: tokens =>
    match p.stepToken token with
    | none => .error .value
    | some q => if spare + 1 < q.stack.length then .error .recursion else parse spare q tokens

/-- `json.loads` of bytes. -/
def loads (spare : ℕ) (bytes : List UInt8) : Except JsonError JsonValue :=
  match decodeBytes bytes (detectEncoding bytes) with
  | none => .error .value
  | some text => parse spare Parse.start (tokens text 0)

/-- `dict.get` of an object: the last member with the key. -/
def JsonValue.get (members : List (PyString × JsonValue)) (key : PyString) : Option JsonValue :=
  members.reverse.lookup key

/-! ## The recursion limit -/

/-- Some first tokens can begin a value, and leave more containers open than the limit allows. -/
def Overruns (spare : ℕ) (p : Parse) (tokens : List (Option Token)) : Prop :=
  ∃ before q, before <+: tokens ∧ before.foldlM Parse.stepToken p = some q ∧
    spare + 1 < q.stack.length

theorem overruns_cons {spare : ℕ} {p : Parse} {token : Option Token} {tokens : List (Option Token)}
    (hp : p.stack.length ≤ spare + 1) : Overruns spare p (token :: tokens) ↔
      ∃ q, p.stepToken token = some q ∧
        (spare + 1 < q.stack.length ∨ Overruns spare q tokens) := by
  constructor
  · rintro ⟨before, q, hbefore, hrun, hlimit⟩
    cases before with
    | nil =>
      obtain rfl := Option.some.inj hrun
      exact absurd hp (not_le.mpr hlimit)
    | cons first before =>
      obtain ⟨rfl, htail⟩ := List.cons_prefix_cons.mp hbefore
      rw [List.foldlM_cons] at hrun
      obtain ⟨next, hnext, hrun⟩ := Option.bind_eq_some_iff.mp hrun
      exact ⟨next, hnext, .inr ⟨before, q, htail, hrun, hlimit⟩⟩
  · rintro ⟨next, hnext, hlimit | ⟨before, q, hbefore, hrun, hlimit⟩⟩
    · refine ⟨[token], next, List.cons_prefix_cons.mpr ⟨rfl, List.nil_prefix⟩, ?_, hlimit⟩
      rw [List.foldlM_cons, hnext]
      rfl
    · refine ⟨token :: before, q, List.cons_prefix_cons.mpr ⟨rfl, hbefore⟩, ?_, hlimit⟩
      rw [List.foldlM_cons, hnext]
      exact hrun

/-- The reader hits the limit exactly where the grammar can go past it. -/
theorem parse_eq_recursion_iff {spare : ℕ} {p : Parse} {tokens : List (Option Token)}
    (hp : p.stack.length ≤ spare + 1) :
    parse spare p tokens = .error .recursion ↔ Overruns spare p tokens := by
  induction tokens generalizing p with
  | nil =>
    have hnot : ¬Overruns spare p [] := by
      rintro ⟨before, q, hbefore, hrun, hlimit⟩
      rw [List.prefix_nil.mp hbefore] at hrun
      obtain rfl := Option.some.inj hrun
      exact absurd hp (not_le.mpr hlimit)
    refine iff_of_false (fun h => ?_) hnot
    unfold parse at h
    split at h <;> cases h
  | cons token tokens ih =>
    rw [overruns_cons hp, parse]
    cases hnext : p.stepToken token with
    | none => simp
    | some q =>
      dsimp only
      split_ifs with hlimit
      · simp [hlimit]
      · rw [ih (not_lt.mp hlimit)]
        simp [hlimit]

end Lib.JsonText
