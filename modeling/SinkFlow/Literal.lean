import SinkFlow.Decimal.Shortest

/-! Constants and texts that stand literally in the analysed program. -/

namespace SinkFlow

/-- A constant that is no text. Floating-point numbers are kept, compared and ordered by their bits. -/
inductive Constant where
  | int (value : Int64)
  | float (bits : UInt64)
  | bool (value : Bool)
  | char (value : Char)
  | null
  deriving DecidableEq, Inhabited

namespace Constant

/-- How a constant reads when it is appended to a text. -/
def render : Constant → String
  | int v => Int.repr v.toInt
  | float bits => Decimal.ofBits bits
  | bool true => "true"
  | bool false => "false"
  | char c => String.ofList [c]
  | null => "null"

/-- Integers come before floating-point numbers, these before truth values, characters and null;
constants of one kind are ordered by value. -/
def le : Constant → Constant → Bool
  | int a, int b => decide (a ≤ b)
  | int _, _ => true
  | _, int _ => false
  | float a, float b => decide (a ≤ b)
  | float _, _ => true
  | _, float _ => false
  | bool a, bool b => !a || b
  | bool _, _ => true
  | _, bool _ => false
  | char a, char b => decide (a ≤ b)
  | char _, null => true
  | null, char _ => false
  | null, null => true

end Constant

/-- What a value slot is known to hold. -/
inductive Literal where
  | text (value : String)
  | constant (value : Constant)
  deriving DecidableEq, Inhabited

namespace Literal

/-- Whether the literal is a text. -/
def isText : Literal → Bool
  | text _ => true
  | constant _ => false

/-- How the literal reads when it is appended to a text. -/
def render : Literal → String
  | text t => t
  | constant c => c.render

end Literal

end SinkFlow
