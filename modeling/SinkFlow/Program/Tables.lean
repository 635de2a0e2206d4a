import SinkFlow.Error
import SinkFlow.Literal
import SinkFlow.Program.Digraph
import SinkFlow.Program.Statement
import SinkFlow.Table

/-!
The tables of a dependence graph: a directed graph of statements, and what is known about values and classes. The graph
joins nodes, but statements are asked for by their identifiers; an index leads from the one to the other.
-/

namespace SinkFlow

/-- The tables of a dependence graph. -/
structure DependenceTables (L : DigraphLibrary Statement) where
  rootProcedure : Option ProcedureId := none
  graph : L.Graph := L.empty
  /-- The node of the last statement that was added with an identifier. -/
  index : Table StatementId Nat := ∅
  literals : Table (ProcedureId × ValueSlot) Literal := ∅
  initializers : Table String InitializerBody := ∅
  /-- A number above all identifiers in use. -/
  nextId : Nat := 0

namespace DependenceTables

variable {L : DigraphLibrary Statement}

/-- All statements as they were added. -/
def statements (g : DependenceTables L) : List Statement := L.weights g.graph

/-- The identifiers of all statements, in the order in which they were added. -/
def statementIds (g : DependenceTables L) : List StatementId := g.statements.map Statement.id

/-- The identifier of the statement at a node. -/
def idAt? (g : DependenceTables L) (n : Nat) : Option StatementId := (L.weight? g.graph n).map Statement.id

/-- The statement with an identifier. -/
def statement? (g : DependenceTables L) (id : StatementId) : Option Statement :=
  (g.index.get? id).bind (L.weight? g.graph)

/-- The statements at the other ends of the edges of a statement, oldest edge first. -/
def neighbors (g : DependenceTables L) (id : StatementId) (direction : EdgeDirection) : List StatementId :=
  match g.index.get? id with
  | none => []
  -- The library gives the newest edge first.
  | some n => ((L.neighbors g.graph n direction).filterMap g.idAt?).reverse

/-- Where the edges from a statement lead, oldest edge first. -/
def successors (g : DependenceTables L) (id : StatementId) : List StatementId := g.neighbors id .outgoing

/-- Where the edges to a statement come from, oldest edge first. -/
def predecessors (g : DependenceTables L) (id : StatementId) : List StatementId := g.neighbors id .incoming

/-- The number of edges to a statement. -/
def predecessorCount (g : DependenceTables L) (id : StatementId) : Nat :=
  match g.index.get? id with
  | none => 0
  | some n => (L.neighbors g.graph n .incoming).length

/-- What a value slot is known to hold. -/
def literal? (g : DependenceTables L) (procedure : ProcedureId) (slot : ValueSlot) : Option Literal :=
  g.literals.get? (procedure, slot)

/-- The static initializer of a class. -/
def initializer? (g : DependenceTables L) (className : String) : Option InitializerBody :=
  g.initializers.get? className

/-- The identifiers at the ends of an edge. -/
def endIds? (g : DependenceTables L) (edge : Nat × Nat) : Option (StatementId × StatementId) := do
  return (← g.idAt? edge.1, ← g.idAt? edge.2)

/-- The edges by the identifiers at their ends, oldest first. -/
def edges (g : DependenceTables L) : List (StatementId × StatementId) := (L.edges g.graph).filterMap g.endIds?

/-- Adds a statement. It is the one that its identifier stands for from now on. -/
def insert (g : DependenceTables L) (s : Statement) : DependenceTables L :=
  let (n, graph) := L.addNode g.graph s
  { g with graph, index := g.index.insert s.id n, nextId := max g.nextId (s.id.toNat + 1) }

/-- The node of a known statement. -/
def node (g : DependenceTables L) (id : StatementId) : Except AnalysisError Nat :=
  match g.index.get? id with
  | some n => .ok n
  | none => .error (.unknownStatement id)

/-- Adds an edge between two known statements; an edge that is there is kept once. -/
def addEdge (g : DependenceTables L) (source target : StatementId) : Except AnalysisError (DependenceTables L) := do
  let a ← g.node source
  let b ← g.node target
  return { g with graph := L.updateEdge g.graph a b }

end DependenceTables

end SinkFlow
