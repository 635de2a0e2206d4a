import SinkFlow.Flow.InStep

/-!
Flow graphs: tables that agree with each other. Every operation on the tables is one on flow graphs.
-/

namespace SinkFlow

/-- The flow graph of one entrypoint. -/
structure FlowGraph extends GraphTables where
  /-- The tables agree with each other. -/
  inStep : toGraphTables.InStep := by exact GraphTables.inStep_new _ _
  deriving DecidableEq

namespace FlowGraph

variable {α : Type}

instance : Coe FlowGraph GraphTables := ⟨toGraphTables⟩

instance : Inhabited FlowGraph := ⟨{ entrypoint := default }⟩

theorem eq_of_tables {g g' : FlowGraph} (h : g.toGraphTables = g'.toGraphTables) : g = g' := by
  cases g
  cases g'
  cases h
  rfl

/-- The graph that a change of the tables leads to. -/
def changed (r : α × GraphTables) (h : r.2.InStep) : α × FlowGraph := (r.1, ⟨r.2, h⟩)

/-- The graph that a change of the tables leads to, if it is not refused. -/
def attempted : (r : Except AnalysisError (α × GraphTables)) → (∀ a t, r = .ok (a, t) → t.InStep) →
    Except AnalysisError (α × FlowGraph)
  | .ok (a, t), h => .ok (a, ⟨t, h a t rfl⟩)
  | .error e, _ => .error e

/-- The graph that an update of the tables leads to, if it is not refused. -/
def updated : (r : Except AnalysisError GraphTables) → (∀ t, r = .ok t → t.InStep) → Except AnalysisError FlowGraph
  | .ok t, h => .ok ⟨t, h t rfl⟩
  | .error e, _ => .error e

theorem attempted_eq_ok_iff {r : Except AnalysisError (α × GraphTables)} {h : ∀ a t, r = .ok (a, t) → t.InStep}
    {a : α} {g : FlowGraph} : attempted r h = .ok (a, g) ↔ r = .ok (a, g.toGraphTables) := by
  rcases r with e | ⟨b, t⟩
  · simp [attempted]
  · simp only [attempted, Except.ok.injEq, Prod.mk.injEq]
    exact ⟨fun ⟨hb, ht⟩ => ⟨hb, ht ▸ rfl⟩, fun ⟨hb, ht⟩ => ⟨hb, eq_of_tables ht⟩⟩

theorem updated_eq_ok_iff {r : Except AnalysisError GraphTables} {h : ∀ t, r = .ok t → t.InStep} {g : FlowGraph} :
    updated r h = .ok g ↔ r = .ok g.toGraphTables := by
  rcases r with e | t
  · simp [updated]
  · simp only [updated, Except.ok.injEq]
    exact ⟨fun ht => ht ▸ rfl, fun ht => eq_of_tables ht⟩

theorem exists_attempted {r : Except AnalysisError (α × GraphTables)} {h : ∀ a t, r = .ok (a, t) → t.InStep} {a : α}
    {t : GraphTables} (hr : r = .ok (a, t)) : ∃ g : FlowGraph, attempted r h = .ok (a, g) ∧ g.toGraphTables = t :=
  ⟨⟨t, h a t hr⟩, attempted_eq_ok_iff.mpr hr, rfl⟩

theorem exists_updated {r : Except AnalysisError GraphTables} {h : ∀ t, r = .ok t → t.InStep} {t : GraphTables}
    (hr : r = .ok t) : ∃ g : FlowGraph, updated r h = .ok g ∧ g.toGraphTables = t :=
  ⟨⟨t, h t hr⟩, updated_eq_ok_iff.mpr hr, rfl⟩

@[simp] theorem tables_attempted {r : Except AnalysisError (α × GraphTables)}
    {h : ∀ a t, r = .ok (a, t) → t.InStep} :
    (attempted r h).map (fun x => x.2.toGraphTables) = r.map Prod.snd := by
  rcases r with e | ⟨b, t⟩ <;> rfl

@[simp] theorem tables_updated {r : Except AnalysisError GraphTables} {h : ∀ t, r = .ok t → t.InStep} :
    (updated r h).map toGraphTables = r := by
  rcases r with e | t <;> rfl

/-! ## Stages -/

/-- Moves on from one stage to another. -/
def advance (g : FlowGraph) (before after : Phase) : Except AnalysisError FlowGraph :=
  updated (g.toGraphTables.advance before after) fun _ => g.inStep.advance

/-- Starts building. -/
def beginBuilding (g : FlowGraph) : Except AnalysisError FlowGraph := g.advance .empty .building

/-- Ends the collection of fields. -/
def finishFields (g : FlowGraph) : Except AnalysisError FlowGraph := g.advance .building .fieldsCollected

/-- Ends propagation. -/
def finishPropagation (g : FlowGraph) : Except AnalysisError FlowGraph := g.advance .fieldsCollected .propagated

/-- The graph without what reports do not need. -/
def cleared (g : FlowGraph) : FlowGraph := ⟨g.toGraphTables.cleared, g.inStep.cleared⟩

/-- Drops everything that reports do not need. -/
def clear (g : FlowGraph) : Except AnalysisError FlowGraph := updated g.toGraphTables.clear fun _ => g.inStep.clear

/-! ## Nodes -/

/-- The node of a value, made when it is first asked for; the literal matters only then. -/
def valueNode (g : FlowGraph) (procedure : ProcedureId) (slot : ValueSlot) (literal : Option Literal) :
    NodeId × FlowGraph :=
  changed (g.toGraphTables.valueNode procedure slot literal) (g.inStep.valueNode procedure slot literal)

/-- Adds a view of the field of an object. -/
def instanceView (g : FlowGraph) (procedure : ProcedureId) (object : ValueSlot) (field : FieldSignature) :
    NodeId × FlowGraph :=
  changed (g.toGraphTables.instanceView procedure object field) (g.inStep.pushNumbered procedure _)

/-- Adds a view of a static field. -/
def staticView (g : FlowGraph) (procedure : ProcedureId) (field : FieldSignature) : NodeId × FlowGraph :=
  changed (g.toGraphTables.staticView procedure field) (g.inStep.pushNumbered procedure _)

/-- Adds a stand-in for a sensitive result. -/
def standIn (g : FlowGraph) (procedure : ProcedureId) (tag : String) : NodeId × FlowGraph :=
  changed (g.toGraphTables.standIn procedure tag) (g.inStep.pushNumbered procedure _)

/-- The view that stands for a static field in a whole procedure, and whether it was just made. -/
def representative (g : FlowGraph) (procedure : ProcedureId) (field : FieldSignature) :
    (NodeId × Bool) × FlowGraph :=
  changed (g.toGraphTables.representative procedure field) (g.inStep.representative procedure field)

/-- Marks a node as an operand that a sink leaks. -/
def markSpecial (g : FlowGraph) (n : NodeId) : Except AnalysisError FlowGraph :=
  updated (g.toGraphTables.markSpecial n) fun _ => g.inStep.markSpecial

/-! ## Records and constraints -/

/-- Changes what is known at a node that is there. -/
def editFacts (g : FlowGraph) (n : NodeId) (edit : Facts → Facts) : FlowGraph :=
  ⟨g.toGraphTables.editFacts n edit, g.inStep.editFacts n edit⟩

/-- Adds an item at a node, and says whether it was new. -/
def addFact (g : FlowGraph) (n : NodeId) (i : Item) (t : Trace) : Except AnalysisError (Bool × FlowGraph) := do
  g.expectNode n
  return (!(g.factsAt n).has i, g.editFacts n (·.add i t))

/-- Adds a constraint while the graph is built, unless it is there already; a node is not related to
itself. -/
def addConstraint (g : FlowGraph) (target : NodeId) (kind : ConstraintKind) (source : NodeId) (path : Path) :
    Except AnalysisError (Option ConstraintId × FlowGraph) :=
  attempted (g.toGraphTables.addConstraint target kind source path) fun _ _ => g.inStep.addConstraint

/-! ## Fields, append chains and sinks -/

/-- Lists a view that reads a field. -/
def registerIncoming (g : FlowGraph) (field : FieldSignature) (n : NodeId) : FlowGraph :=
  ⟨g.toGraphTables.registerIncoming field n, { g.inStep with }⟩

/-- Lists a view that writes a field. -/
def registerOutgoing (g : FlowGraph) (field : FieldSignature) (n : NodeId) : FlowGraph :=
  ⟨g.toGraphTables.registerOutgoing field n, { g.inStep with }⟩

/-- Notes which field a statement accesses. -/
def recordAccess (g : FlowGraph) (statement : StatementId) (access : FieldAccess) : FlowGraph :=
  ⟨g.toGraphTables.recordAccess statement access, { g.inStep with }⟩

/-- Puts a node on a chain. -/
def attachChain (g : FlowGraph) (n : NodeId) (id : ChainId) : Except AnalysisError FlowGraph :=
  updated (g.toGraphTables.attachChain n id) fun _ => g.inStep.attachChain

/-- The chain that a node was last put on, or a new one. -/
def chainFor (g : FlowGraph) (n : NodeId) : Except AnalysisError (ChainId × FlowGraph) :=
  attempted (g.toGraphTables.chainFor n) fun _ _ => g.inStep.chainFor

/-- Appends to a chain; nothing happens if there is no such chain. -/
def pushElement (g : FlowGraph) (id : ChainId) (e : AppendElement) : FlowGraph :=
  ⟨g.toGraphTables.pushElement id e, { g.inStep with }⟩

/-- Lists a sink, once for each statement of a procedure, and says whether it was new. -/
def registerSink (g : FlowGraph) (site : SinkSite) : Bool × FlowGraph :=
  changed (g.toGraphTables.registerSink site) (g.inStep.registerSink site)

end FlowGraph

end SinkFlow
