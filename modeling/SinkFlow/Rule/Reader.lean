import SinkFlow.Rule
import SinkFlow.Text.Blank
import SinkFlow.Text.Digits

/-!
Reading rule tables. A table has one item per line; a hash sign starts a comment and blanks separate the
fields. A line that is no item is counted and skipped.
-/

namespace SinkFlow

/-- Why a rule expression or an operand index is refused. -/
inductive RuleError where
  | notAnIndex (token : String)
  | belowResult (index : Int)
  | noOperator (expression : String)
  deriving DecidableEq, Inhabited

/-- The wording of a refusal. -/
def RuleError.message : RuleError → String
  | notAnIndex token => "'" ++ token ++ "' is not an operand index"
  | belowResult index => "operand index " ++ Int.repr index ++ " below -1"
  | noOperator expression => "'" ++ expression ++ "' has no propagation operator"

namespace Rule

/-- A number with an optional sign. -/
def integer? : List Char → Option Int
  | '-' :: cs => (Text.number? 10 cs).map fun n => -(Int.ofNat n)
  | '+' :: cs => (Text.number? 10 cs).map Int.ofNat
  | cs => (Text.number? 10 cs).map Int.ofNat

/-- An operand index: a signed 32-bit number, not below -1, with blanks around it. -/
def index (cs : List Char) : Except RuleError Int :=
  match integer? (Text.trim cs) with
  | some i =>
    if i < Int32.minValue.toInt ∨ Int32.maxValue.toInt < i then .error (.notAnIndex (String.ofList cs))
    else if i < -1 then .error (.belowResult i)
    else .ok i
  | none => .error (.notAnIndex (String.ofList cs))

/-- The operators in the order in which they are looked for; a longer one hides what it contains. -/
def operators : List RuleOperator := [.both, .blocked, .intoLeft, .intoRight]

/-- The first of some operators that occurs in a text, with what stands before and after it. -/
def cutOperator (cs : List Char) : List RuleOperator → Option (List Char × RuleOperator × List Char)
  | [] => none
  | op :: ops =>
    match Text.cutAt op.token.toList cs with
    | some (front, back) => some (front, op, back)
    | none => cutOperator cs ops

/-- Reads a rule such as `0<=1`. -/
def expression (cs : List Char) : Except RuleError PropagationRule :=
  match cutOperator cs operators with
  | some (front, op, back) => do return ⟨← index front, op, ← index back⟩
  | none => .error (.noOperator (String.ofList cs))

/-- What reading a table gives: its items, and the number of lines that are none. -/
structure Outcome (α : Type) where
  items : List α
  skipped : Nat
  deriving DecidableEq, Inhabited

/-- The fields of a line, without its comment. -/
def fields (line : List Char) : List (List Char) := Text.words (Text.before '#' line)

/-- The fields of every line that has some. -/
def fieldLines (text : String) : List (List (List Char)) :=
  ((Text.lines text.toList).map fields).filter (· ≠ [])

/-- Reads every line that has fields as an item. -/
def table {α : Type} (item? : List (List Char) → Option α) (text : String) : Outcome α :=
  let read := (fieldLines text).map item?
  ⟨read.filterMap id, read.countP Option.isNone⟩

/-- All results, if none is a refusal. -/
def allOk? {α β ε : Type} (read : α → Except ε β) (as : List α) : Option (List β) :=
  as.mapM fun a => (read a).toOption

/-- A line `tag signature rule rule ...` with at least one rule. -/
def propagationItem? : List (List Char) → Option PropagationRuleSet
  | tag :: signature :: first :: rest =>
    (allOk? expression (first :: rest)).map fun rules => ⟨String.ofList tag, ⟨String.ofList signature⟩, rules⟩
  | _ => none

/-- A line `signature tag`. -/
def sourceItem? : List (List Char) → Option SourceCorrelation
  | [signature, tag] => some ⟨⟨String.ofList signature⟩, String.ofList tag⟩
  | _ => none

/-- A line `tag signature index index ...` with at least one index. -/
def sinkItem? : List (List Char) → Option SinkDefinition
  | tag :: signature :: first :: rest =>
    (allOk? index (first :: rest)).map fun args => ⟨String.ofList tag, ⟨String.ofList signature⟩, args⟩
  | _ => none

/-- Reads a table of propagation rules. -/
def propagationTable (text : String) : Outcome PropagationRuleSet := table propagationItem? text

/-- Reads a table of sensitive results. -/
def sourceTable (text : String) : Outcome SourceCorrelation := table sourceItem? text

/-- Reads a table of sinks. -/
def sinkTable (text : String) : Outcome SinkDefinition := table sinkItem? text

end Rule

end SinkFlow
