import TaiSkeleton.Authz.TokenFree.Source

/-!
# The parsed condition

The constructs of the allowlisted grammar. Every one carries the offset a refusal about it
reports. Literals the analysis never reads (the value of a constant, the text around an
interpolation, the keys of an object) are not kept.
-/

namespace TaiSkeleton.Authz.TokenFree

mutual

/-- `_Node`: a parsed construct. -/
inductive Node where
  /-- `.` -/
  | root (position : ℕ)
  /-- A number, or one of `true`, `false` and `null`. -/
  | constant (position : ℕ)
  /-- A string literal; `value` is its text when there is no interpolation. -/
  | string (position : ℕ) (value : String) (interpolations : List Node)
  /-- `$name` -/
  | var (position : ℕ) (name : String)
  /-- `source` with a chain of suffixes applied to it. -/
  | projection (position : ℕ) (source : Node) (suffixes : List Suffix)
  /-- An allowlisted builtin applied to the current input. -/
  | call (position : ℕ) (name : String) (arguments : List Node)
  | binary (position : ℕ) (operator : String) (left right : Node)
  | negate (position : ℕ) (operand : Node)
  /-- `source as $name | body` -/
  | bind (position : ℕ) (source : Node) (name : String) (body : Node)
  /-- `try body`, with an optional `catch handler`. -/
  | tryCatch (position : ℕ) (body : Node) (handler : Option Node)
  /-- `{key: value, ...}`: only the values are kept. -/
  | objectConstruction (position : ℕ) (values : List Node)
  /-- `[element]`, or `[]`. -/
  | arrayConstruction (position : ℕ) (element : Option Node)

/-- A step of a projection. -/
inductive Suffix where
  /-- `.name` or `."name"` -/
  | field (position : ℕ) (name : String)
  /-- `[key]`, or `[]` without a key. -/
  | index (position : ℕ) (key : Option Node)
  /-- `?` -/
  | optional (position : ℕ)

end

/-- The offset a refusal about the construct reports. -/
def Node.position : Node → ℕ
  | .root p | .constant p | .string p _ _ | .var p _ | .projection p _ _ | .call p _ _
  | .binary p _ _ _ | .negate p _ | .bind p _ _ _ | .tryCatch p _ _ | .objectConstruction p _
  | .arrayConstruction p _ => p

/-- The offset a refusal about the suffix reports. -/
def Suffix.position : Suffix → ℕ
  | .field p _ | .index p _ | .optional p => p

/-- `_static_name`: the field name a suffix statically projects, if it does. -/
def staticName : Suffix → Option String
  | .field _ name => some name
  | .index _ (some (.string _ value [])) => some value
  | _ => none

end TaiSkeleton.Authz.TokenFree
