import SinkFlow.Signature

/-! Rules: how a call moves facts between its operands, which results are sensitive, and which operands leak. -/

namespace SinkFlow

/-- Which way a rule lets facts flow between its two operands. -/
inductive RuleOperator where
  | intoLeft
  | intoRight
  | both
  | blocked
  deriving DecidableEq, Inhabited

namespace RuleOperator

/-- How the operator is written. -/
def token : RuleOperator → String
  | intoLeft => "<="
  | intoRight => "=>"
  | both => "<=>"
  | blocked => ">=<"

/-- Whether the right operand's facts reach the left one. -/
def flowsIntoLeft : RuleOperator → Bool
  | intoLeft | both => true
  | intoRight | blocked => false

/-- Whether the left operand's facts reach the right one. -/
def flowsIntoRight : RuleOperator → Bool
  | intoRight | both => true
  | intoLeft | blocked => false

end RuleOperator

/-- A flow between two operands of a call; -1 means its result. -/
structure PropagationRule where
  left : Int
  operator : RuleOperator
  right : Int
  deriving DecidableEq, Inhabited

/-- The written form of a rule, such as `0<=1`. -/
def PropagationRule.render (r : PropagationRule) : String :=
  Int.repr r.left ++ r.operator.token ++ Int.repr r.right

/-- The rules of one method. -/
structure PropagationRuleSet where
  tag : String
  signature : MethodSignature
  rules : List PropagationRule
  deriving DecidableEq, Inhabited

/-- A method whose result is sensitive; the tag says as what. -/
structure SourceCorrelation where
  signature : MethodSignature
  tag : String
  deriving DecidableEq, Inhabited

/-- A method that leaks some of its operands. -/
structure SinkDefinition where
  tag : String
  signature : MethodSignature
  arguments : List Int
  deriving DecidableEq, Inhabited

end SinkFlow
