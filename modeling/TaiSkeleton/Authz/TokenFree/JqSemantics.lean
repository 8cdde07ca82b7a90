import TaiSkeleton.Authz.TokenFree.Ast
import TaiSkeleton.Lib.Json
import TaiSkeleton.Lib.Outputs

/-!
# The jq meaning of a parsed condition

A jq program is a generator: on one input it emits values until it ends or raises. `sem` is the
meaning of a parsed condition, one clause for each construct. What the syntax tree does not
hold (`Literals`) and what jq computes on values alone (`Primitives`) are parameters; how values,
errors and bindings flow between constructs is fixed here.
-/

namespace TaiSkeleton.Authz.TokenFree

open Lib

/-- The outputs of one run; a jq error is a value, most often a message. -/
abbrev Stream (ν : Type) := Outputs (Json ν) (Json ν)

/-- The values of the variables in scope. -/
abbrev Env (ν : Type) := List (String × Json ν)

/-- A program with its variables bound: what it emits on an input. -/
abbrev Filter (ν : Type) := Json ν → Stream ν

/-- The literals of the condition text, by the offset of the construct they belong to. -/
structure Literals (ν : Type) where
  /-- The value of a number or keyword literal. -/
  constant : ℕ → Json ν
  /-- The text of a string literal before its `i`-th interpolation, or after the last. -/
  fragment : ℕ → ℕ → String
  /-- The `i`-th key of an object construction. -/
  key : ℕ → ℕ → String

/-- What jq computes on values alone. -/
structure Primitives (ν : Type) where
  /-- The comparison and arithmetic operators. -/
  binary : String → Json ν → Json ν → Except (Json ν) (Json ν)
  negate : Json ν → Except (Json ν) (Json ν)
  /-- An index other than a name into an object or into `null`. -/
  index : Json ν → Json ν → Except (Json ν) (Json ν)
  /-- The error of iterating a value that is neither an array nor an object. -/
  cannotIterate : Json ν → Json ν
  tostring : Json ν → String
  /-- A builtin on its input and the values of its arguments. -/
  call : String → Json ν → List (Json ν) → Except (Json ν) (Json ν)

variable {ν : Type}

/-! ## Operations on values and streams -/

/-- `value[key]`. -/
def index (P : Primitives ν) (value key : Json ν) : Except (Json ν) (Json ν) :=
  match value, key with
  | .obj members, .str name => .ok (Json.member members name)
  | .null, .str _ => .ok .null
  | value, key => P.index value key

/-- `value[]`. -/
def iterate (P : Primitives ν) : Json ν → Stream ν
  | .arr elements => .each elements
  | .obj members => .each (members.map Prod.snd)
  | value => .raise (P.cannotIterate value)

/-- A step that a `?` follows drops its error. -/
def tolerant (optional : Bool) (out : Stream ν) : Stream ν :=
  if optional then out.suppress else out

/-- The binary operators. All but `|`, `,`, `//`, `and` and `or` run their right operand first
and their left operand once for each of its values. -/
def combine (P : Primitives ν) (operator : String) (left right : Filter ν) : Filter ν := fun v =>
  if operator = "|" then (left v).bind right
  else if operator = "," then (left v).append (right v)
  else if operator = "//" then .alternative Json.truthy (left v) (right v)
  else if operator = "or" then
    (left v).bind fun a => if a.truthy then .emit (.bool true)
      else (right v).bind fun b => .emit (.bool b.truthy)
  else if operator = "and" then
    (left v).bind fun a => if a.truthy then (right v).bind fun b => .emit (.bool b.truthy)
      else .emit (.bool false)
  else (right v).bind fun b => (left v).bind fun a => .ofExcept (P.binary operator a b)

/-- The values of an argument list, the last argument in the outermost loop. -/
def tuples : List (Filter ν) → Json ν → Outputs (Json ν) (List (Json ν))
  | [], _ => .emit []
  | f :: fs, v => (tuples fs v).bind fun ws => (f v).bind fun w => .emit (w :: ws)

/-- The allowlisted builtins: those defined in jq by their definitions, the others by what they
compute on the values of their arguments. -/
def applyBuiltin (P : Primitives ν) (name : String) (arguments : List (Filter ν)) : Filter ν :=
  fun v =>
  let test (out : Stream ν) := (out.anyOf Json.truthy).bind fun b => .emit (.bool b)
  let testAll (out : Stream ν) := (out.allOf Json.truthy).bind fun b => .emit (.bool b)
  let equal (a b : Json ν) : Stream ν := .ofExcept (P.binary "==" a b)
  match name, arguments with
  | "map", [f] => ((iterate P v).bind f).collect.bind fun vs => .emit (.arr vs)
  | "any", [] => test (iterate P v)
  | "any", [f] => test ((iterate P v).bind f)
  | "any", [generator, f] => test ((generator v).bind f)
  | "all", [] => testAll (iterate P v)
  | "all", [f] => testAll ((iterate P v).bind f)
  | "all", [generator, f] => testAll ((generator v).bind f)
  | "IN", [source] => test ((source v).bind fun a => equal a v)
  | "IN", [source, s] => test ((s v).bind fun b => (source v).bind fun a => equal a b)
  | name, arguments => (tuples arguments v).bind fun ws => .ofExcept (P.call name v ws)

/-- An object member under `key`, unless a later pair of the construction has the same key. -/
def addMember (key : String) (value : Json ν) (members : List (String × Json ν)) :
    List (String × Json ν) :=
  match members.lookup key with
  | some _ => members
  | none => (key, value) :: members

/-- Whether a suffix selects something, as opposed to a bare `?`. -/
def Suffix.selects : Suffix → Bool
  | .optional _ => false
  | _ => true

/-- Whether the chain goes on with a `?`. -/
def opensOptional : List Suffix → Bool
  | .optional _ :: _ => true
  | _ => false

/-! ## The meaning of a construct -/

variable (L : Literals ν) (P : Primitives ν)

mutual

/-- The outputs of a construct under `env`, on the input `v`. -/
def sem : Node → Env ν → Filter ν
  | .root _, _, v => .emit v
  | .constant position, _, _ => .emit (L.constant position)
  | .string position value holes, env, v =>
    if holes.isEmpty then .emit (.str value)
    else (semHoles holes position 1 env v (.emit (L.fragment position 0))).bind
      fun s => .emit (.str s)
  | .var _ name, env, _ =>
    -- jq does not compile a program that reads an unbound variable.
    match env.lookup name with
    | some w => .emit w
    | none => .raise .null
  | .projection _ source suffixes, env, v => semSuffixes suffixes env v false (sem source env v)
  | .call _ name arguments, env, v => applyBuiltin P name (semArguments arguments env) v
  | .binary _ operator left right, env, v => combine P operator (sem left env) (sem right env) v
  | .negate _ operand, env, v => (sem operand env v).bind fun w => .ofExcept (P.negate w)
  | .bind _ source name body, env, v =>
    (sem source env v).bind fun w => sem body ((name, w) :: env) v
  | .tryCatch _ body none, env, v => (sem body env v).suppress
  | .tryCatch _ body (some handler), env, v => (sem body env v).handle (sem handler env)
  | .objectConstruction position values, env, v =>
    (semValues values position 0 env v).bind fun members => .emit (.obj members)
  | .arrayConstruction _ none, _, _ => .emit (.arr [])
  | .arrayConstruction _ (some element), env, v =>
    (sem element env v).collect.bind fun vs => .emit (.arr vs)

/-- The arguments of a call, as filters. -/
def semArguments : List Node → Env ν → List (Filter ν)
  | [], _ => []
  | argument :: arguments, env => sem argument env :: semArguments arguments env

/-- The texts of a string literal, given those up to its `i`-th interpolation; a later
interpolation is an outer loop. -/
def semHoles : List Node → ℕ → ℕ → Env ν → Json ν → Outputs (Json ν) String →
    Outputs (Json ν) String
  | [], _, _, _, _, texts => texts
  | hole :: holes, position, i, env, v, texts =>
    semHoles holes position (i + 1) env v ((sem hole env v).bind fun w =>
      texts.bind fun s => .emit (s ++ P.tostring w ++ L.fragment position i))

/-- The member lists of an object construction from its `i`-th pair on; an earlier pair is an
outer loop. -/
def semValues : List Node → ℕ → ℕ → Env ν → Json ν → Outputs (Json ν) (List (String × Json ν))
  | [], _, _, _, _ => .emit []
  | value :: values, position, i, env, v =>
    (sem value env v).bind fun w =>
      (semValues values position (i + 1) env v).bind fun members =>
        .emit (addMember (L.key position i) w members)

/-- A suffix chain on the outputs `out` of what precedes it; `selected` says whether that ends
in a selecting suffix. -/
def semSuffixes : List Suffix → Env ν → Json ν → Bool → Stream ν → Stream ν
  | [], _, _, _, out => out
  | suffix :: suffixes, env, v, selected, out =>
    semSuffixes suffixes env v suffix.selects
      (semSuffix suffix env v selected (opensOptional suffixes) out)

/-- One suffix. A `?` belongs to the selecting suffix before it (`optional` there); with none
before it, it drops the error of all that precedes. A key runs on the input of the whole
projection, once for all the outputs it selects from. -/
def semSuffix : Suffix → Env ν → Json ν → Bool → Bool → Stream ν → Stream ν
  | .field _ name, _, _, _, optional, out =>
    out.bind fun w => tolerant optional (.ofExcept (index P w (.str name)))
  | .index _ none, _, _, _, optional, out => out.bind fun w => tolerant optional (iterate P w)
  | .index _ (some key), env, v, _, optional, out =>
    (sem key env v).bind fun k => out.bind fun w => tolerant optional (.ofExcept (index P w k))
  | .optional _, _, _, selected, _, out => if selected then out else out.suppress

end

end TaiSkeleton.Authz.TokenFree
