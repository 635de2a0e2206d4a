import SinkFlow.Path

/-! Constraints: what one node knows, another one has to know too. -/

namespace SinkFlow

/-- Why the target of a constraint knows what its source knows; this decides what flows back. -/
inductive ConstraintKind where
  | eq
  | ge
  | geAssign
  | geUnidirectional
  | geAppend
  | gePhi
  deriving DecidableEq, Inhabited

namespace ConstraintKind

/-- All kinds, in their order. -/
def all : List ConstraintKind := [.eq, .ge, .geAssign, .geUnidirectional, .geAppend, .gePhi]

/-- The name of a kind. -/
def name : ConstraintKind → String
  | eq => "EQ"
  | ge => "GE"
  | geAssign => "GE_ASSIGN"
  | geUnidirectional => "GE_UNIDIRECTIONAL"
  | geAppend => "GE_APPEND"
  | gePhi => "GE_PHI"

/-- Whether facts may also flow from the target to the source. -/
def isBidirectional : ConstraintKind → Bool
  | geUnidirectional => false
  | _ => true

end ConstraintKind

/-- The target knows what the source knows, by way of a path. -/
structure Constraint where
  target : NodeId
  kind : ConstraintKind
  source : NodeId
  path : Path
  deriving DecidableEq, Inhabited

/-- What tells a constraint from all others: its target, kind and source. -/
abbrev ConstraintKey := NodeId × ConstraintKind × NodeId

/-- What tells a constraint from all others. -/
def Constraint.key (c : Constraint) : ConstraintKey := (c.target, c.kind, c.source)

/-- Whether a constraint carries facts back from a node. -/
def Constraint.carriesBack (n : NodeId) (c : Constraint) : Bool := c.target = n && c.kind.isBidirectional

end SinkFlow
