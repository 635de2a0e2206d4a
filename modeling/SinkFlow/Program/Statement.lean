import SinkFlow.Program.Instruction

/-! Statements of a dependence graph, and the bodies of static initializers. -/

namespace SinkFlow

/-- The memory that a heap statement stands for. -/
inductive HeapLocation where
  | staticField (field : FieldSignature)
  | other
  deriving DecidableEq, Inhabited

/-- The static field at a location, if it is one. -/
def HeapLocation.staticField? : HeapLocation → Option FieldSignature
  | staticField f => some f
  | other => none

/-- What a statement of the dependence graph is. -/
inductive StatementKind where
  /-- Joins the operands; an absent operand is unknown and carries nothing. -/
  | phi (target : ValueSlot) (operands : List (Option ValueSlot))
  | normal (instruction : Instruction)
  /-- Passes the actual parameter at a position to a callee. -/
  | paramCaller (callee : ProcedureId) (index : UInt64) (value : ValueSlot)
  /-- Receives the formal parameter at a position of the enclosing procedure. -/
  | paramCallee (index : UInt64) (value : ValueSlot)
  /-- Receives the result of a callee. -/
  | normalReturnCaller (callee : ProcedureId) (value : ValueSlot)
  /-- Returns a value of the enclosing procedure. -/
  | normalReturnCallee (value : ValueSlot)
  | heapParamCallee (location : HeapLocation)
  | heapReturnCaller (location : HeapLocation)
  | heapReturnCallee (location : HeapLocation)
  deriving DecidableEq, Inhabited

/-- The instruction of a normal statement. -/
def StatementKind.instruction? : StatementKind → Option Instruction
  | normal i => some i
  | _ => none

/-- A statement in its procedure context. -/
structure Statement where
  id : StatementId
  procedure : ProcedureId
  kind : StatementKind
  deriving DecidableEq, Inhabited

/-- A basic block; the successors are positions in the list of blocks. -/
structure InitializerBlock where
  instructions : List Instruction
  successors : List UInt64
  deriving DecidableEq, Inhabited

/-- The body of a static initializer; the first block is its entry. -/
structure InitializerBody where
  procedure : ProcedureId
  blocks : List InitializerBlock
  deriving DecidableEq, Inhabited

end SinkFlow
