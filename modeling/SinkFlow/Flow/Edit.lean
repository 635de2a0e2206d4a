import SinkFlow.Flow.Graph

/-! Edits: sequences of changes to a flow graph. An edit that fails keeps the changes made before it failed. -/

namespace SinkFlow

/-- A computation that changes a flow graph and may fail. -/
abbrev Edit := ExceptT AnalysisError (StateM FlowGraph)

namespace Edit

variable {α : Type}

/-- Runs an edit; the graph is given back also when the edit fails. -/
def runOn (e : Edit α) (g : FlowGraph) : Except AnalysisError α × FlowGraph := e.run g

/-- A change that cannot fail. -/
def change (f : FlowGraph → α × FlowGraph) : Edit α := ExceptT.mk fun g => ((f g).1 |> .ok, (f g).2)

/-- A change that either succeeds or leaves the graph as it is. -/
def attempt (f : FlowGraph → Except AnalysisError (α × FlowGraph)) : Edit α :=
  ExceptT.mk fun g =>
    match f g with
    | .ok (a, g') => (.ok a, g')
    | .error e => (.error e, g)

/-- A change without a result that either succeeds or leaves the graph as it is. -/
def attemptUpdate (f : FlowGraph → Except AnalysisError FlowGraph) : Edit Unit :=
  attempt fun g => (f g).map ((), ·)

/-- A change without a result that cannot fail. -/
def update (f : FlowGraph → FlowGraph) : Edit Unit := change fun g => ((), f g)

/-- Relates two nodes. -/
def relate (target : NodeId) (kind : ConstraintKind) (source : NodeId) (path : Path) : Edit Unit :=
  attempt fun g => (g.addConstraint target kind source path).map fun r => ((), r.2)

end Edit

end SinkFlow
