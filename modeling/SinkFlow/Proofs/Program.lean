import Mathlib.Logic.Relation
import SinkFlow.Program.Graph

/-!
Reaching statements over edges, and sample programs. Whatever can be reached in a dependence graph is one of its
statements, since its edges join nothing else.
-/

namespace SinkFlow

/-- A statement can be reached from a root over edges. -/
def Program.Reachable (p : Program) (id : StatementId) : Prop :=
  ∃ root ∈ p.roots, Relation.ReflTransGen (fun a b => b ∈ p.successors a) root id

namespace DependenceGraph

variable {L : DigraphLibrary Statement}

theorem isSome_of_reachable (g : DependenceGraph L) (cancelAt : Option StatementId) {id : StatementId}
    (h : (g.toProgram cancelAt).Reachable id) : ((g.toProgram cancelAt).statement? id).isSome := by
  refine (g.linked.statement?_isSome id).mpr ?_
  obtain ⟨root, hroot, hpath⟩ := h
  cases hpath with
  | refl => exact (List.mem_filter.mp hroot).1
  | tail _ hnext => exact g.linked.successors_known hnext

end DependenceGraph

/-! ## Sample programs -/

namespace GraphDocument

/-- The dependence graph of a document. A document that cannot be read stands for the empty one. -/
def graph (d : GraphDocument) : DependenceGraph (.edgeList Statement) :=
  (DependenceGraph.ofDocument _ d).toOption.getD (.ofStatements none [])

/-- The program of a document. -/
def program (d : GraphDocument) : Program := d.graph.toProgram

end GraphDocument

end SinkFlow
