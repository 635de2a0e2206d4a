import SinkFlow.Program
import SinkFlow.Program.Linked

/-!
Dependence graphs: tables whose index agrees with their directed graph. A dependence graph answers what an analysis asks
about a program, and it can be written down as a document and read again.
-/

namespace SinkFlow

/-- The literal of one value slot. -/
structure LiteralEntry where
  procedure : ProcedureId
  slot : ValueSlot
  literal : Literal
  deriving DecidableEq, Inhabited

/-- A dependence graph written down as lists. -/
structure GraphDocument where
  rootProcedure : Option ProcedureId := none
  statements : List Statement := []
  edges : List (StatementId × StatementId) := []
  literals : List LiteralEntry := []
  initializers : List (String × InitializerBody) := []
  deriving DecidableEq, Inhabited

/-- The dependence graph of one entrypoint. -/
structure DependenceGraph (L : DigraphLibrary Statement) extends DependenceTables L where
  /-- The index agrees with the directed graph. -/
  linked : toDependenceTables.Linked := by exact DependenceTables.linked_new _

namespace DependenceGraph

variable {L : DigraphLibrary Statement}

/-- Names the procedure whose heap statements say nothing. -/
def withRootProcedure (g : DependenceGraph L) (procedure : ProcedureId) : DependenceGraph L :=
  ⟨{ g.toDependenceTables with rootProcedure := some procedure }, { g.linked with }⟩

/-- Adds a statement under a new identifier, unless none is left. -/
def addStatement (g : DependenceGraph L) (procedure : ProcedureId) (kind : StatementKind) :
    Option (StatementId × DependenceGraph L) :=
  if h : g.nextId + 1 < UInt32.size then
    let s : Statement := ⟨UInt32.ofNat g.nextId, procedure, kind⟩
    some (s.id, ⟨g.insert s, g.linked.insert s (.inl (g.linked.get?_nextId (Nat.lt_of_succ_lt h)))⟩)
  else none

/-- Adds an edge between two known statements; an edge that is there is kept once. -/
def addEdge (g : DependenceGraph L) (source target : StatementId) : Except AnalysisError (DependenceGraph L) :=
  match h : g.toDependenceTables.addEdge source target with
  | .ok g' => .ok ⟨g', g.linked.addEdge h⟩
  | .error e => .error e

/-- Adds edges one after another. An edge that fails ends it; those before it stay. -/
def addEdges (g : DependenceGraph L) : List (StatementId × StatementId) → DependenceGraph L × Except AnalysisError Unit
  | [] => (g, .ok ())
  | (source, target) :: rest =>
    match g.addEdge source target with
    | .ok g => g.addEdges rest
    | .error e => (g, .error e)

/-- Links each statement of a list to the next one. -/
def chain (g : DependenceGraph L) (ids : List StatementId) : DependenceGraph L × Except AnalysisError Unit :=
  g.addEdges (ids.zip ids.tail)

/-- Says what a value slot holds. -/
def setLiteral (g : DependenceGraph L) (procedure : ProcedureId) (slot : ValueSlot) (literal : Literal) :
    DependenceGraph L :=
  ⟨{ g.toDependenceTables with literals := g.literals.insert (procedure, slot) literal }, { g.linked with }⟩

/-- Gives a class its static initializer. -/
def setInitializer (g : DependenceGraph L) (className : String) (body : InitializerBody) : DependenceGraph L :=
  ⟨{ g.toDependenceTables with initializers := g.initializers.insert className body }, { g.linked with }⟩

/-! ## Documents -/

/-- The graph of some statements, without edges. -/
def ofStatements (rootProcedure : Option ProcedureId) (statements : List Statement) : DependenceGraph L :=
  ⟨statements.foldl DependenceTables.insert { rootProcedure },
    (DependenceTables.linked_new rootProcedure).insertAll L.edges_empty statements⟩

/-- The graph of a document. Every end of an edge has to be a statement; of two literals of one slot,
or two initializers of one class, the later one counts. -/
def ofDocument (L : DigraphLibrary Statement) (d : GraphDocument) : Except AnalysisError (DependenceGraph L) :=
  match (ofStatements d.rootProcedure d.statements).addEdges d.edges with
  | (_, .error e) => .error e
  | (g, .ok ()) =>
    let g := d.literals.foldl (fun g e => g.setLiteral e.procedure e.slot e.literal) g
    .ok (d.initializers.foldl (fun g e => g.setInitializer e.1 e.2) g)

/-- Slots are ordered by procedure, then by slot. -/
def slotLe (a b : ProcedureId × ValueSlot) : Bool :=
  decide (a.1 < b.1) || (a.1 == b.1 && decide (a.2 ≤ b.2))

/-- The document of a graph: literals sorted by slot, initializers by class. -/
def toDocument (g : DependenceGraph L) : GraphDocument where
  rootProcedure := g.rootProcedure
  statements := g.statements
  edges := g.edges
  literals := (sortBy (fun a b => slotLe a.1 b.1) g.literals.entries).map fun e => ⟨e.1.1, e.1.2, e.2⟩
  initializers := sortBy (fun a b => decide (a.1 ≤ b.1)) g.initializers.entries

/-! ## Programs -/

/-- The program of a graph. -/
def toProgram (g : DependenceGraph L) (cancelAt : Option StatementId := none) : Program where
  statementIds := g.statementIds
  statement? := g.statement?
  successors := g.successors
  predecessors := g.predecessors
  predecessorCount := g.predecessorCount
  literal? := g.literal?
  rootProcedure := g.rootProcedure
  initializer? := g.initializer?
  cancelAt
  id_of_statement? := g.linked.id_of_statement?
  mem_statementIds := g.linked.mem_statementIds
  mem_predecessors := g.linked.mem_predecessors
  predecessorCount_eq := g.linked.predecessorCount_eq

/-- The statements that no edge leads to. -/
def roots (g : DependenceGraph L) : List StatementId := g.toProgram.roots

end DependenceGraph

end SinkFlow
