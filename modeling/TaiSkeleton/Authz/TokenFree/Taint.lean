import TaiSkeleton.Authz.TokenFree.Ast

/-!
# The taint analysis

The information-flow rule over a parsed condition: a value that may be the whole auth context
(`Taint.root`) may only be projected by a static field name, and `identity` only on the way to
the owner claim. Every other consumer requires a safe value.
-/

namespace TaiSkeleton.Authz.TokenFree

/-- What a value may carry. -/
inductive Taint where
  /-- Possibly the auth context itself. -/
  | root
  /-- Derived from the context without depending on the identity claims. -/
  | safe
deriving DecidableEq, Repr

/-- The taint of a stream that either operand can reach. -/
def Taint.join (left right : Taint) : Taint :=
  if left = .safe ∧ right = .safe then .safe else .root

/-- What `.` carries, and what each bound variable carries. -/
structure Scope where
  subject : Taint
  vars : List (String × Taint) := []

/-- `_require_safe`: refuse a value that may be the whole context. -/
def requireSafe (text : Text) (taint : Taint) (position : ℕ) (consumer : String) :
    Except Refusal Unit :=
  match taint with
  | .safe => .ok ()
  | .root => .error (refusal text position
      ("condition lets the whole auth context reach " ++ consumer ++ "; a background execution " ++
        "presents no token, so the context may only be read through a statically named field " ++
        "(and '" ++ ownerReference ++ "' is the only readable identity claim)"))

/-- What is left of a projection whose current suffix names `identity`: it must be the owner
claim alone. -/
def requireOwner (text : Text) (position : ℕ) : List Suffix → Except Refusal Taint
  | [last] =>
    if staticName last = some ownerUserIdClaim then .ok .safe
    else .error (beyondOwner text position)
  | _ => .error (beyondOwner text position)
where
  beyondOwner (text : Text) (position : ℕ) : Refusal := refusal text position
    ("condition reads an identity claim beyond '" ++ ownerReference ++
      "', which is the only one a background execution can present")

variable (text : Text)

mutual

/-- `_taint`: the taint of a construct, or the refusal of it. -/
def taint : Node → Scope → Except Refusal Taint
  | .root _, scope => .ok scope.subject
  | .constant _, _ => .ok .safe
  | .string _ _ parts, scope => do
    requireAllSafe parts scope "a string interpolation"
    return .safe
  | .var position name, scope =>
    match scope.vars.lookup name with
    | some taint => .ok taint
    | none => .error (refusal text position
        ("condition reads the unbound variable '$" ++ name ++ "'"))
  | .projection _ source suffixes, scope => do
    projectionTaint suffixes (← taint source scope) scope
  | .call position name arguments, scope => do
    requireSafe text scope.subject position ("the builtin '" ++ name ++ "'")
    requireAllSafe arguments ⟨.safe, scope.vars⟩ ("an argument of the builtin '" ++ name ++ "'")
    return .safe
  | .binary _ operator left right, scope => do
    let l ← taint left scope
    if operator = "|" then
      taint right ⟨l, scope.vars⟩
    else if operator = "," ∨ operator = "//" then
      return l.join (← taint right scope)
    else
      requireSafe text l left.position ("the '" ++ operator ++ "' operator")
      requireSafe text (← taint right scope) right.position ("the '" ++ operator ++ "' operator")
      return .safe
  | .negate position operand, scope => do
    requireSafe text (← taint operand scope) position "arithmetic negation"
    return .safe
  | .bind _ source name body, scope => do
    let s ← taint source scope
    taint body ⟨scope.subject, (name, s) :: scope.vars⟩
  | .tryCatch _ body none, scope => taint body scope
  | .tryCatch _ body (some handler), scope => do
    let b ← taint body scope
    -- A jq error message quotes the values that produced it.
    return b.join (← taint handler ⟨.root, scope.vars⟩)
  | .objectConstruction _ values, scope => do
    requireAllSafe values scope "an object being constructed"
    return .safe
  | .arrayConstruction _ none, _ => .ok .safe
  | .arrayConstruction _ (some element), scope => do
    requireSafe text (← taint element scope) element.position "an array being collected"
    return .safe

/-- The loop that requires every construct of a list to be safe for one consumer. -/
def requireAllSafe : List Node → Scope → String → Except Refusal Unit
  | [], _, _ => .ok ()
  | part :: parts, scope, consumer => do
    requireSafe text (← taint part scope) part.position consumer
    requireAllSafe parts scope consumer

/-- The loop of `_projection` over a suffix chain, from the taint of what precedes it. -/
def projectionTaint : List Suffix → Taint → Scope → Except Refusal Taint
  | [], current, _ => .ok current
  | suffix :: suffixes, .safe, scope => do
    keySafe suffix scope
    projectionTaint suffixes .safe scope
  | suffix :: suffixes, .root, scope =>
    match staticName suffix with
    | none => .error (refusal text suffix.position
        ("condition reaches into the auth context without naming a field; only a statically " ++
          "named field can be read at a fire"))
    | some name =>
      if name = identityField then requireOwner text suffix.position suffixes
      else projectionTaint suffixes .safe scope

/-- Which element of a safe value is selected must not depend on the context either. -/
def keySafe : Suffix → Scope → Except Refusal Unit
  | .field _ _, _ => .ok ()
  | .index _ none, _ => .ok ()
  | .index position (some key), scope => do
    requireSafe text (← taint key scope) position "an index expression"
  | .optional _, _ => .ok ()

end

/-- `assert_safe`: the condition's result does not depend on the identity claims. -/
def assertSafe (node : Node) : Except Refusal Unit := do
  requireSafe text (← taint text node ⟨.root, []⟩) node.position "the condition's result"

end TaiSkeleton.Authz.TokenFree
