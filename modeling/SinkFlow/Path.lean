/-! Where things are: identifiers of the analysed program, and the statement paths that justify a fact. -/

namespace SinkFlow

/-- An entrypoint that is analysed on its own. -/
abbrev EntrypointId := UInt32

/-- A procedure context of the analysed program. -/
abbrev ProcedureId := UInt32

/-- A statement of an entrypoint's dependence graph. -/
abbrev StatementId := UInt32

/-- A value of a procedure context. -/
abbrev ValueSlot := UInt32

/-- A node of a flow graph, by its position. Up to 2^32 of them, these are 32-bit numbers. -/
abbrev NodeId := Nat

/-- A constraint of a flow graph, by its position. Up to 2^32 of them, these are 32-bit numbers: cutting one off at 32
bits changes nothing, see `GraphTables.Consistent`. -/
abbrev ConstraintId := Nat

/-- An append chain of a flow graph, by its position. -/
abbrev ChainId := Nat

/-- A statement together with the entrypoint that it belongs to; paths that cross entrypoints mix them. -/
structure StatementRef where
  entrypoint : EntrypointId
  statement : StatementId
  deriving DecidableEq, Inhabited

/-- The short form of a reference: `e0:s1`. -/
def StatementRef.render (r : StatementRef) : String :=
  "e" ++ Nat.repr r.entrypoint.toNat ++ ":s" ++ Nat.repr r.statement.toNat

/-- The statements crossed by a fact, first one first. -/
abbrev Path := List StatementRef

/-- What is known about how a fact came to a node: its path, or nothing once the path was dropped. -/
abbrev Trace := Option Path

namespace Trace

/-- Extends a path by the path of a crossed constraint; a dropped path stays dropped. -/
def extend (t : Trace) (step : Path) : Trace := t.map (· ++ step)

/-- One path after another; a dropped part drops the whole. -/
def join : Trace → Trace → Trace
  | some a, some b => some (a ++ b)
  | _, _ => none

@[simp] theorem extend_none (step : Path) : extend none step = none := rfl

@[simp] theorem extend_some (p step : Path) : extend (some p) step = some (p ++ step) := rfl

@[simp] theorem extend_nil (t : Trace) : extend t [] = t := by
  cases t <;> simp

end Trace

end SinkFlow
