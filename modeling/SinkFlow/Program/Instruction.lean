import SinkFlow.Path
import SinkFlow.Signature

/-! Instructions of the analysed program. -/

namespace SinkFlow

/-- A call. The operands are in call order; an instance call has its receiver first. -/
structure Invoke where
  signature : MethodSignature
  isStatic : Bool
  uses : List ValueSlot
  result : Option ValueSlot
  /-- Whether the callee is known to have no body in the program. -/
  library : Bool
  deriving DecidableEq, Inhabited

namespace Invoke

/-- The receiver of an instance call. -/
def receiver (c : Invoke) : Option ValueSlot := if c.isStatic then none else c.uses.head?

/-- The operands without the receiver. -/
def arguments (c : Invoke) : List ValueSlot := if c.isStatic then c.uses else c.uses.tail

/-- The operand that a rule means by an index: the result for -1, else an operand by position. -/
def operand (c : Invoke) (index : Int) : Option ValueSlot :=
  if index = -1 then c.result else if 0 ≤ index then c.uses[index.toNat]? else none

end Invoke

/-- What a normal statement does. A field access without an object is one to a static field. -/
inductive Instruction where
  | getField (target : ValueSlot) (object : Option ValueSlot) (field : FieldSignature)
  | putField (object : Option ValueSlot) (value : ValueSlot) (field : FieldSignature)
  | checkCast (target value : ValueSlot)
  | new (target : ValueSlot)
  | arrayLoad (target array : ValueSlot)
  | arrayStore (array value : ValueSlot)
  | return (value : Option ValueSlot)
  | instanceOf (target value : ValueSlot)
  | binaryOp (target left right : ValueSlot)
  | invoke (call : Invoke)
  | other
  deriving DecidableEq, Inhabited

/-- The field that an instruction reads or writes. -/
def Instruction.field? : Instruction → Option FieldSignature
  | getField _ _ f => some f
  | putField _ _ f => some f
  | _ => none

end SinkFlow
