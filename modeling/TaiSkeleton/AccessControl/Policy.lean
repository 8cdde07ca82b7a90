import TaiSkeleton.Lib.Except
import TaiSkeleton.Lib.Json
import TaiSkeleton.AccessControl.PathCanon
import Mathlib.Data.Rat.Init

/-!
# Policies and their conditions

A principal's policy grants scopes, and may carry a jq condition over a context of the request.
Whatever the stores, the templates and jq do is a parameter: a read returns a value or raises.
-/

namespace TaiSkeleton.AccessControl

open Lib

abbrev JsonValue := Json ℚ

/-- The members of a JSON object. -/
abbrev JsonObject := List (String × JsonValue)

/-- `OWNER_USER_ID_CLAIM` -/
def ownerUserIdClaim : String := "owner_user_id"

/-- `ROLE_POINTER_KEY` -/
def rolePointerKey : String := "role"

/-- An exception out of a store, a template or jq, with its text. -/
inductive Fault where
  | raised (text : String)
deriving DecidableEq

/-- `AccessPolicy` -/
structure AccessPolicy where
  scopes : List String := []
  condition : Option String := none
  conditionId : Option String := none
  conditionKwargs : JsonObject := []
  policyData : JsonObject := []

namespace AccessPolicy

/-- A condition is configured, inline or stored. -/
def hasCondition (policy : AccessPolicy) : Bool :=
  policy.condition.isSome || policy.conditionId.isSome

/-- `policy_is_empty` -/
def isEmpty (policy : AccessPolicy) : Bool := policy.scopes.isEmpty && !policy.hasCondition

/-- `policy.policy_data.get("disabled") is True` -/
def isDisabled (policy : AccessPolicy) : Bool :=
  match Json.member policy.policyData "disabled" with
  | .bool true => true
  | _ => false

/-- `policy.policy_data.get(OWNER_USER_ID_CLAIM) is None` -/
def isUnowned (policy : AccessPolicy) : Bool :=
  match Json.member policy.policyData ownerUserIdClaim with
  | .null => true
  | _ => false

/-- `is_admin_policy`, asked with the owner that the policy itself stores. -/
def isAdmin (policy : AccessPolicy) : Bool :=
  policy.scopes.contains "*" && !policy.hasCondition && policy.isUnowned

theorem hasCondition_of_isAdmin {policy : AccessPolicy} (h : policy.isAdmin = true) :
    policy.hasCondition = false := by
  simp only [isAdmin, Bool.and_eq_true, Bool.not_eq_true'] at h
  exact h.1.2

end AccessPolicy

/-- A value read where a string is expected: `None` for a missing member, and an exception out of
the store that is asked with anything but a string. -/
def stringMember (members : JsonObject) (name : String) : Except Fault (Option String) :=
  match Json.member members name with
  | .null => .ok none
  | .str s => .ok (some s)
  | _ => .error (.raised "not a string")

/-! ## Conditions -/

/-- `JqAuthContext` -/
structure JqAuthContext where
  sub : String
  scopes : List String
  identity : JsonObject
  policy : JsonObject
  context : JsonObject
  method : Option String
  path : Path
  time : ℚ

/-- `context.model_dump()` -/
def JqAuthContext.modelDump (c : JqAuthContext) : JsonValue :=
  .obj [("sub", .str c.sub), ("scopes", .arr (c.scopes.map .str)), ("identity", .obj c.identity),
    ("policy", .obj c.policy), ("context", .obj c.context),
    ("request", .obj [("method", c.method.elim .null .str),
      ("path", .str (String.ofList c.path))]),
    ("system", .obj [("time", .num c.time)])]

/-- What a condition is evaluated with: the renderers of inline and of stored templates, and
`run_jq_first` over a dumped context, `none` where the filter emits nothing. -/
structure Evaluator where
  renderInline : (content : String) → (kwargs : JsonObject) → Except Fault String
  renderById : (templateId : String) → (kwargs : JsonObject) → Except Fault String
  runJqFirst : String → JsonValue → Except Fault (Option JsonValue)

/-- What `enforce` raises: a denial by the policy, or a fault of its evaluation. -/
inductive EnforceError where
  | violation (text : String)
  | evaluation (text : String)
deriving DecidableEq

/-- `render_by_id_or_content` -/
def Evaluator.renderByIdOrContent (evaluator : Evaluator) (content templateId : Option String)
    (kwargs : JsonObject) : Except Fault String :=
  match content, templateId with
  | some _, some _ => .error (.raised "Provide either 'content' OR 'template_id', not both.")
  | some content, none => evaluator.renderInline content kwargs
  | none, some templateId => evaluator.renderById templateId kwargs
  | none, none => .ok ""

/-- The condition of a policy as the text that is enforced. -/
def Evaluator.renderCondition (evaluator : Evaluator) (policy : AccessPolicy) :
    Except Fault String :=
  evaluator.renderByIdOrContent policy.condition policy.conditionId policy.conditionKwargs

theorem Evaluator.renderCondition_of_not_hasCondition (evaluator : Evaluator)
    {policy : AccessPolicy} (h : policy.hasCondition = false) :
    evaluator.renderCondition policy = .ok "" := by
  simp only [AccessPolicy.hasCondition, Bool.or_eq_false_iff, Option.isSome_eq_false_iff,
    Option.isNone_iff_eq_none] at h
  simp only [renderCondition, renderByIdOrContent, h.1, h.2]

/-- Whether jq answered the JSON value `true`. -/
def isTrue : Option JsonValue → Bool
  | some (.bool true) => true
  | _ => false

/-- `PolicyEnforcer.enforce` -/
def Evaluator.enforce (evaluator : Evaluator) (context : JqAuthContext) (expression : String)
    (conditionConfigured : Bool) : Except EnforceError Unit :=
  if expression = "" then
    if conditionConfigured then
      .error (.violation "Policy violation: configured condition rendered empty")
    else .ok ()
  else
    match evaluator.runJqFirst expression context.modelDump with
    | .error (.raised text) => .error (.evaluation ("Policy error: " ++ text))
    | .ok result => if isTrue result then .ok () else .error (.violation "Policy violation")

/-- The condition of a policy holds of a context: it renders, and jq answers `true`; a policy
without a condition holds of every context. -/
def Evaluator.Holds (evaluator : Evaluator) (policy : AccessPolicy) (context : JqAuthContext) :
    Prop :=
  policy.hasCondition = false ∨
    ∃ expression, evaluator.renderCondition policy = .ok expression ∧ expression ≠ "" ∧
      ∃ result, evaluator.runJqFirst expression context.modelDump = .ok result ∧
        isTrue result = true

/-- Rendering and enforcing, in the order of every edge, succeed exactly where the condition
holds. -/
theorem Evaluator.holds_iff {evaluator : Evaluator} {policy : AccessPolicy}
    {context : JqAuthContext} :
    evaluator.Holds policy context ↔ ∃ expression, evaluator.renderCondition policy =
      .ok expression ∧ evaluator.enforce context expression policy.hasCondition = .ok () := by
  unfold Holds
  cases hc : policy.hasCondition with
  | false => simp [evaluator.renderCondition_of_not_hasCondition hc, enforce]
  | true =>
    simp only [Bool.true_eq_false, false_or]
    refine exists_congr fun expression => and_congr_right fun _ => ?_
    unfold enforce
    by_cases he : expression = ""
    · simp [he]
    · simp only [he, ne_eq, not_false_eq_true, true_and, if_false]
      cases hj : evaluator.runJqFirst expression context.modelDump with
      | error e => simp
      | ok result => simp

end TaiSkeleton.AccessControl
