import SinkFlow.Error
import SinkFlow.Flow.Append
import SinkFlow.Flow.Constraint
import SinkFlow.Flow.Node

/-!
The tables of a flow graph: the nodes of one entrypoint, the constraints between them, and where fields, append chains
and sinks were found. A node has one record at most, and there is one constraint at most for each target, kind and
source. Constraints are found in three ways: by position, by an index of their keys, and by the lists at the records of
their ends; every operation that changes one of these tables changes the others along with it.
-/

namespace SinkFlow

/-- The nodes of one procedure, and the number that its next view or stand-in gets. -/
structure Scope where
  values : Table ValueSlot NodeId := ∅
  /-- The view that stands for a static field in the whole procedure. -/
  statics : Table FieldSignature NodeId := ∅
  nextNumber : Nat := 0
  deriving DecidableEq, Inhabited

/-- Whether a statement reads or writes a field. -/
inductive AccessKind where
  | get
  | put
  deriving DecidableEq, Inhabited

/-- The access of a statement to a field. -/
structure FieldAccess where
  field : FieldSignature
  kind : AccessKind
  deriving DecidableEq, Inhabited

/-- A call that leaks some of its operands. -/
structure SinkSite where
  entrypoint : EntrypointId
  procedure : ProcedureId
  statement : StatementId
  signature : MethodSignature
  tag : String
  arguments : List NodeId
  deriving DecidableEq, Inhabited

/-- What tells a sink from all others. -/
def SinkSite.key (s : SinkSite) : ProcedureId × StatementId := (s.procedure, s.statement)

/-- The tables of the flow graph of one entrypoint. -/
structure GraphTables where
  entrypoint : EntrypointId
  phase : Phase := .empty
  nodes : Array Node := #[]
  /-- The records of the nodes, by position. -/
  records : Array (Option NodeRecord) := #[]
  constraints : Array Constraint := #[]
  /-- The constraints by their keys. -/
  index : Table ConstraintKey ConstraintId := ∅
  scopes : Table ProcedureId Scope := ∅
  /-- The views that read a field. -/
  incoming : Table FieldSignature (List NodeId) := ∅
  /-- The views that write a field. -/
  outgoing : Table FieldSignature (List NodeId) := ∅
  accesses : Table StatementId FieldAccess := ∅
  chains : Array AppendChain := #[]
  sinks : List SinkSite := []
  /-- The keys of the sinks. -/
  sinkKeys : Table (ProcedureId × StatementId) Unit := ∅
  deriving DecidableEq, Inhabited

namespace GraphTables

/-! ## Looking up -/

/-- A node by its position. -/
def node? (g : GraphTables) (n : NodeId) : Option Node := g.nodes[n]?

/-- The record of a node. -/
def record? (g : GraphTables) (n : NodeId) : Option NodeRecord := g.records[n]?.join

/-- What is known at a node; nothing if it has no record. -/
def factsAt (g : GraphTables) (n : NodeId) : Facts := ((g.record? n).map NodeRecord.facts).getD .empty

/-- Whether a node can learn: it is there and no constant. -/
def isOpen (g : GraphTables) (n : NodeId) : Bool := (g.node? n).any fun v => !v.isConstant

/-- The number of records. -/
def recordCount (g : GraphTables) : Nat := g.records.toList.countP Option.isSome

/-- All records, by position. -/
def recorded (g : GraphTables) : List NodeRecord := g.records.toList.filterMap id

/-- A constraint by its position. -/
def constraint? (g : GraphTables) (c : ConstraintId) : Option Constraint := g.constraints[c]?

/-- The position of the constraint with a target, kind and source. -/
def constraintId? (g : GraphTables) (target : NodeId) (kind : ConstraintKind) (source : NodeId) :
    Option ConstraintId := g.index.get? (target, kind, source)

/-- The positions of the constraints that carry facts away from a node. -/
def forwardIds (g : GraphTables) (n : NodeId) : List ConstraintId := ((g.record? n).map NodeRecord.forward).getD []

/-- The positions of the constraints that carry facts back from a node. -/
def backwardIds (g : GraphTables) (n : NodeId) : List ConstraintId := ((g.record? n).map NodeRecord.backward).getD []

/-- The constraints that carry facts away from a node. -/
def constraintsFrom (g : GraphTables) (n : NodeId) : List Constraint := (g.forwardIds n).filterMap g.constraint?

/-- The constraints that carry facts back from a node. -/
def constraintsInto (g : GraphTables) (n : NodeId) : List Constraint := (g.backwardIds n).filterMap g.constraint?

/-- How many constraints there are of each kind that occurs. -/
def constraintCounts (g : GraphTables) : List (ConstraintKind × Nat) :=
  (ConstraintKind.all.map fun k => (k, g.constraints.toList.countP (·.kind = k))).filter (·.2 ≠ 0)

/-- The node of a value. -/
def valueNode? (g : GraphTables) (procedure : ProcedureId) (slot : ValueSlot) : Option NodeId :=
  (g.scopes.get? procedure).bind (·.values.get? slot)

/-- The views that read a field. -/
def incomingViews (g : GraphTables) (field : FieldSignature) : List NodeId := (g.incoming.get? field).getD []

/-- The views that write a field. -/
def outgoingViews (g : GraphTables) (field : FieldSignature) : List NodeId := (g.outgoing.get? field).getD []

/-- The fields that are read, sorted. -/
def incomingFields (g : GraphTables) : List FieldSignature := sortBy FieldSignature.le g.incoming.keys

/-- The fields that are written, sorted. -/
def outgoingFields (g : GraphTables) : List FieldSignature := sortBy FieldSignature.le g.outgoing.keys

/-! ## Stages -/

/-- Refuses a graph that is not at a stage. -/
def expect (g : GraphTables) (phase : Phase) : Except AnalysisError Unit :=
  if g.phase = phase then .ok () else .error (.invalidPhase phase g.phase)

/-- Moves on from one stage to another. -/
def advance (g : GraphTables) (before after : Phase) : Except AnalysisError GraphTables := do
  g.expect before
  return { g with phase := after }

/-- The record of a node after clearing: only the facts of fields and sink operands are kept. -/
def clearedRecord (g : GraphTables) (n : NodeId) (r : Option NodeRecord) : Option NodeRecord :=
  if (g.node? n).any Node.isRetained then r.map NodeRecord.stripped else none

/-- The tables without what reports do not need. -/
def cleared (g : GraphTables) : GraphTables :=
  { g with
    phase := .cleared, records := g.records.mapIdx g.clearedRecord, constraints := #[], index := ∅, scopes := ∅
    chains := #[] }

/-- Drops everything that reports do not need. -/
def clear (g : GraphTables) : Except AnalysisError GraphTables := do
  g.expect .propagated
  return g.cleared

/-! ## Nodes -/

/-- The scope of a procedure, empty if it has none yet. -/
def scope (g : GraphTables) (procedure : ProcedureId) : Scope := (g.scopes.get? procedure).getD {}

/-- Adds a node, without a record. -/
def pushNode (g : GraphTables) (kind : NodeKind) : NodeId × GraphTables :=
  (g.nodes.size, { g with nodes := g.nodes.push { id := g.nodes.size, kind }, records := g.records.push none })

/-- The node of a value, made when it is first asked for; the literal matters only then. -/
def valueNode (g : GraphTables) (procedure : ProcedureId) (slot : ValueSlot) (literal : Option Literal) :
    NodeId × GraphTables :=
  match g.valueNode? procedure slot with
  | some n => (n, g)
  | none =>
    let (n, g) := g.pushNode (.value procedure slot literal)
    let scope := g.scope procedure
    (n, { g with scopes := g.scopes.insert procedure { scope with values := scope.values.insert slot n } })

/-- Adds a node that takes the next number of its procedure. -/
def pushNumbered (g : GraphTables) (procedure : ProcedureId) (kind : Nat → NodeKind) : NodeId × GraphTables :=
  let scope := g.scope procedure
  let (n, g) := g.pushNode (kind scope.nextNumber)
  (n, { g with scopes := g.scopes.insert procedure { scope with nextNumber := scope.nextNumber + 1 } })

/-- Adds a view of the field of an object. -/
def instanceView (g : GraphTables) (procedure : ProcedureId) (object : ValueSlot) (field : FieldSignature) :
    NodeId × GraphTables :=
  g.pushNumbered procedure fun k => .instanceField procedure k object field

/-- Adds a view of a static field. -/
def staticView (g : GraphTables) (procedure : ProcedureId) (field : FieldSignature) : NodeId × GraphTables :=
  g.pushNumbered procedure fun k => .staticField k field

/-- Adds a stand-in for a sensitive result. -/
def standIn (g : GraphTables) (procedure : ProcedureId) (tag : String) : NodeId × GraphTables :=
  g.pushNumbered procedure fun k => .standIn k tag

/-- The view that stands for a static field in a whole procedure, and whether it was just made. -/
def representative (g : GraphTables) (procedure : ProcedureId) (field : FieldSignature) :
    (NodeId × Bool) × GraphTables :=
  match (g.scopes.get? procedure).bind (·.statics.get? field) with
  | some n => ((n, false), g)
  | none =>
    let (n, g) := g.staticView procedure field
    let scope := g.scope procedure
    ((n, true),
      { g with scopes := g.scopes.insert procedure { scope with statics := scope.statics.insert field n } })

/-- Refuses a node that is not there. -/
def expectNode (g : GraphTables) (n : NodeId) : Except AnalysisError Unit :=
  if n < g.nodes.size then .ok () else .error (.unknownNode n)

/-- Marks a node as an operand that a sink leaks. -/
def markSpecial (g : GraphTables) (n : NodeId) : Except AnalysisError GraphTables := do
  g.expectNode n
  return { g with nodes := g.nodes.modify n fun v => { v with special := true } }

/-! ## Records -/

/-- Changes the record of a node that is there, and makes it if there is none. -/
def editRecord (g : GraphTables) (n : NodeId) (edit : NodeRecord → NodeRecord) : GraphTables :=
  { g with records := g.records.modify n fun r => some (edit (r.getD { node := n })) }

/-- Changes what is known at a node that is there. -/
def editFacts (g : GraphTables) (n : NodeId) (edit : Facts → Facts) : GraphTables :=
  g.editRecord n fun r => { r with facts := edit r.facts }

/-! ## Constraints -/

/-- Adds a constraint to the arena, to the index and to the records of those from which facts flow. -/
def pushConstraint (g : GraphTables) (c : Constraint) : GraphTables :=
  let id := g.constraints.size
  let g := { g with constraints := g.constraints.push c, index := g.index.insert c.key id }
  let g := g.editRecord c.source (·.pushForward id)
  if c.kind.isBidirectional then g.editRecord c.target (·.pushBackward id) else g

/-- Adds a constraint while the graph is built, unless it is there already; a node is not related to
itself. -/
def addConstraint (g : GraphTables) (target : NodeId) (kind : ConstraintKind) (source : NodeId) (path : Path) :
    Except AnalysisError (Option ConstraintId × GraphTables) := do
  g.expect .building
  g.expectNode target
  g.expectNode source
  if target = source then return (none, g)
  match g.constraintId? target kind source with
  | some id => return (some id, g)
  | none => return (some g.constraints.size, g.pushConstraint ⟨target, kind, source, path⟩)

/-! ## Fields -/

/-- Lists a node under a field, once. -/
def listView (views : Table FieldSignature (List NodeId)) (field : FieldSignature) (n : NodeId) :
    Table FieldSignature (List NodeId) :=
  views.insert field (addOnce ((views.get? field).getD []) n)

/-- Lists a view that reads a field. -/
def registerIncoming (g : GraphTables) (field : FieldSignature) (n : NodeId) : GraphTables :=
  { g with incoming := listView g.incoming field n }

/-- Lists a view that writes a field. -/
def registerOutgoing (g : GraphTables) (field : FieldSignature) (n : NodeId) : GraphTables :=
  { g with outgoing := listView g.outgoing field n }

/-- Notes which field a statement accesses. -/
def recordAccess (g : GraphTables) (statement : StatementId) (access : FieldAccess) : GraphTables :=
  { g with accesses := g.accesses.insert statement access }

/-! ## Append chains -/

/-- Puts a node on a chain. -/
def attachChain (g : GraphTables) (n : NodeId) (id : ChainId) : Except AnalysisError GraphTables := do
  g.expectNode n
  return g.editRecord n (·.attach id)

/-- The chain that a node was last put on, or a new one. -/
def chainFor (g : GraphTables) (n : NodeId) : Except AnalysisError (ChainId × GraphTables) := do
  g.expectNode n
  match ((g.record? n).map NodeRecord.chains).getD [] |>.getLast? with
  | some id => return (id, g)
  | none =>
    let id := g.chains.size
    return (id, ← { g with chains := g.chains.push {} }.attachChain n id)

/-- Appends to a chain; nothing happens if there is no such chain. -/
def pushElement (g : GraphTables) (id : ChainId) (e : AppendElement) : GraphTables :=
  { g with chains := g.chains.modify id (·.push e) }

/-! ## Sinks -/

/-- Lists a sink, once for each statement of a procedure, and says whether it was new. -/
def registerSink (g : GraphTables) (site : SinkSite) : Bool × GraphTables :=
  if g.sinkKeys.contains site.key then (false, g)
  else (true, { g with sinks := g.sinks ++ [site], sinkKeys := g.sinkKeys.insertIfNew site.key () })

end GraphTables

end SinkFlow
