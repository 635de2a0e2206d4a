import SinkFlow.Fact

/-! Nodes of a flow graph: values, views of fields, and constants that stand for sensitive results. -/

namespace SinkFlow

/-- What a node stands for. Views and stand-ins are numbered within their procedure. -/
inductive NodeKind where
  /-- A value of a procedure, with the literal that it is known to be. -/
  | value (procedure : ProcedureId) (slot : ValueSlot) (literal : Option Literal)
  /-- The field of an object as one access sees it. -/
  | instanceField (procedure : ProcedureId) (number : Nat) (object : ValueSlot) (field : FieldSignature)
  /-- A static field as one access or one procedure sees it. -/
  | staticField (number : Nat) (field : FieldSignature)
  /-- A sensitive result. -/
  | standIn (number : Nat) (tag : String)
  deriving DecidableEq, Inhabited

namespace NodeKind

/-- The literal of a constant node. -/
def literal? : NodeKind → Option Literal
  | value _ _ l => l
  | standIn _ tag => some (.text tag)
  | _ => none

/-- The field that a view shows. -/
def field? : NodeKind → Option FieldSignature
  | instanceField _ _ _ f => some f
  | staticField _ f => some f
  | _ => none

/-- The procedure that a node is bound to. -/
def procedure? : NodeKind → Option ProcedureId
  | value p _ _ => some p
  | instanceField p _ _ _ => some p
  | _ => none

/-- Whether the node is a view of a static field. -/
def isStaticField : NodeKind → Bool
  | staticField _ _ => true
  | _ => false

end NodeKind

/-- What has been learnt about a node. -/
structure NodeRecord where
  /-- The node whose record it is. -/
  node : NodeId
  facts : Facts := .empty
  /-- The constraints that carry facts away from the node, oldest first. -/
  forward : List ConstraintId := []
  /-- The constraints that carry facts back from the node, oldest first. -/
  backward : List ConstraintId := []
  /-- The append chains that the node belongs to, oldest first. -/
  chains : List ChainId := []
  deriving DecidableEq, Inhabited

namespace NodeRecord

/-- Lists a constraint that carries facts away. -/
def pushForward (r : NodeRecord) (c : ConstraintId) : NodeRecord := { r with forward := r.forward ++ [c] }

/-- Lists a constraint that carries facts back. -/
def pushBackward (r : NodeRecord) (c : ConstraintId) : NodeRecord := { r with backward := r.backward ++ [c] }

/-- Lists an append chain, once. -/
def attach (r : NodeRecord) (id : ChainId) : NodeRecord := { r with chains := addOnce r.chains id }

/-- Drops all constraints and chains, and keeps the facts. -/
def stripped (r : NodeRecord) : NodeRecord := { r with forward := [], backward := [], chains := [] }

end NodeRecord

/-- A node: its number, what it stands for, and whether a sink leaks it. -/
structure Node where
  id : NodeId
  kind : NodeKind
  special : Bool := false
  deriving DecidableEq, Inhabited

namespace Node

/-- The literal of a constant node. -/
def literal? (n : Node) : Option Literal := n.kind.literal?

/-- Whether the node is a constant; constants learn nothing. -/
def isConstant (n : Node) : Bool := n.literal?.isSome

/-- Whether the node is a view of a field. -/
def isField (n : Node) : Bool := n.kind.field?.isSome

/-- Whether the node keeps its record and its traces to the end. -/
def isRetained (n : Node) : Bool := n.isField || n.special

/-- The properties of a node as bits: constant 1, text constant 2, field 4, static field 8, instance
field 16, stand-in 32 and 64, sink operand 128. -/
def flags (n : Node) : Nat :=
  let kindBits :=
    match n.kind with
    | .value _ _ none => 0
    | .value _ _ (some l) => if l.isText then 3 else 1
    | .instanceField .. => 20
    | .staticField .. => 12
    | .standIn .. => 99
  if n.special then kindBits + 128 else kindBits

end Node

end SinkFlow
