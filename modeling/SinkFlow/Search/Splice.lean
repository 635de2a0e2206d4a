import SinkFlow.Flow.Graph

/-!
Splicing: how the trace of a fact in one entrypoint goes on in another one. The remote trace is cut at the
statement that writes, or reads, the field that both share.
-/

namespace SinkFlow

namespace FlowGraph

/-- Whether a step of a path is an access of a kind to a field in this graph. -/
def isAccess (g : FlowGraph) (field : FieldSignature) (kind : AccessKind) (step : StatementRef) : Bool :=
  step.entrypoint = g.entrypoint && g.accesses.get? step.statement = some ⟨field, kind⟩

/-- Where a path touches a field in this graph: its last write, or its first read. -/
def connecting? (g : FlowGraph) (path : Path) (field : FieldSignature) : AccessKind → Option Nat
  | .put => (path.reverse.findIdx? (g.isAccess field .put)).map fun i => path.length - 1 - i
  | .get => path.findIdx? (g.isAccess field .get)

/-- A path up to its last write of a field, or all of it if there is none. -/
def upToPut (g : FlowGraph) (field : FieldSignature) (path : Path) : Path :=
  match g.connecting? path field .put with
  | some i => path.take (i + 1)
  | none => path

/-- A path from its first read of a field on, or all of it if there is none. -/
def fromGet (g : FlowGraph) (field : FieldSignature) (path : Path) : Path :=
  match g.connecting? path field .get with
  | some i => path.drop i
  | none => path

/-- A remote trace that ends at a write, then a local one, then what was carried along. -/
def spliceBackward (g : FlowGraph) (field : FieldSignature) (remote localTrace carried : Trace) : Trace :=
  Trace.join (Trace.join (remote.map (g.upToPut field)) localTrace) carried

/-- What was carried along, then a local trace, then a remote one that starts at a read. -/
def spliceForward (g : FlowGraph) (field : FieldSignature) (carried localTrace remote : Trace) : Trace :=
  Trace.join (Trace.join carried localTrace) (remote.map (g.fromGet field))

end FlowGraph

end SinkFlow
