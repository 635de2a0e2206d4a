import SinkFlow.Literal
import SinkFlow.Program.Statement

/-! Programs as an analysis sees them: what it asks about statements, values and classes, and what it may rely on. -/

namespace SinkFlow

/-- What an analysis asks about one entrypoint. Any answers will do that come from one set of statements and one set of
edges between them. -/
structure Program where
  /-- The identifiers of all statements, in the order in which roots are followed. -/
  statementIds : List StatementId
  statement? : StatementId → Option Statement
  /-- Where the edges from a statement lead. -/
  successors : StatementId → List StatementId
  /-- Where the edges to a statement come from. -/
  predecessors : StatementId → List StatementId
  /-- The number of edges to a statement. -/
  predecessorCount : StatementId → Nat := fun id => (predecessors id).length
  /-- What a value slot is known to hold. -/
  literal? : ProcedureId → ValueSlot → Option Literal
  /-- The procedure whose heap statements say nothing. -/
  rootProcedure : Option ProcedureId
  /-- The static initializer of a class. -/
  initializer? : String → Option InitializerBody
  /-- The statement at which looking it up asks the analysis to stop. -/
  cancelAt : Option StatementId := none
  id_of_statement? : ∀ {id statement}, statement? id = some statement → statement.id = id
  mem_statementIds : ∀ {id statement}, statement? id = some statement → id ∈ statementIds
  mem_predecessors : ∀ {id next}, id ∈ predecessors next ↔ next ∈ successors id
  predecessorCount_eq : ∀ id, predecessorCount id = (predecessors id).length := by exact fun _ => rfl

namespace Program

variable {p : Program} {id next : StatementId}

/-- The statements that no edge leads to. -/
def roots (p : Program) : List StatementId := p.statementIds.filter fun id => p.predecessorCount id = 0

/-- The program without what it says about some statements: they cannot be looked up. -/
def without (p : Program) (ids : List StatementId) : Program :=
  { p with
    statement? := fun id => if id ∈ ids then none else p.statement? id
    id_of_statement? := fun h => by
      split at h
      · cases h
      · exact p.id_of_statement? h
    mem_statementIds := fun h => by
      split at h
      · cases h
      · exact p.mem_statementIds h }

/-- No edge leads to a root. -/
theorem not_mem_roots (h : next ∈ p.successors id) : next ∉ p.roots := by
  intro hroot
  have hnone : p.predecessors next = [] := by
    simpa [p.predecessorCount_eq] using (List.mem_filter.mp hroot).2
  simpa [hnone] using p.mem_predecessors.mpr h

end Program

end SinkFlow
