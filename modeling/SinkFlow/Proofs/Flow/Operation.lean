import SinkFlow.Proofs.Flow.Course

/-!
Operations on the tables of a flow graph, and runs of them. Whatever every operation keeps, a run keeps; so the tables
of a new graph stay in step, whatever operations it goes through.
-/

namespace SinkFlow

namespace GraphTables

variable {g g' : GraphTables}

/-- What a graph can be asked to do. -/
inductive Operation where
  | beginBuilding
  | finishFields
  | finishPropagation
  | clear
  | valueNode (procedure : ProcedureId) (slot : ValueSlot) (literal : Option Literal)
  | instanceView (procedure : ProcedureId) (object : ValueSlot) (field : FieldSignature)
  | staticView (procedure : ProcedureId) (field : FieldSignature)
  | representative (procedure : ProcedureId) (field : FieldSignature)
  | standIn (procedure : ProcedureId) (tag : String)
  | markSpecial (n : NodeId)
  /-- Makes the record of a node if there is none, and changes its facts in any way. -/
  | editFacts (n : NodeId) (edit : Facts → Facts)
  | addConstraint (target : NodeId) (kind : ConstraintKind) (source : NodeId) (path : Path)
  | registerIncoming (field : FieldSignature) (n : NodeId)
  | registerOutgoing (field : FieldSignature) (n : NodeId)
  | recordAccess (statement : StatementId) (access : FieldAccess)
  | chainFor (n : NodeId)
  | attachChain (n : NodeId) (id : ChainId)
  | pushElement (id : ChainId) (e : AppendElement)
  | registerSink (site : SinkSite)

/-- The tables after an operation, or why it is refused. -/
def perform (g : GraphTables) : Operation → Except AnalysisError GraphTables
  | .beginBuilding => g.advance .empty .building
  | .finishFields => g.advance .building .fieldsCollected
  | .finishPropagation => g.advance .fieldsCollected .propagated
  | .clear => g.clear
  | .valueNode procedure slot literal => .ok (g.valueNode procedure slot literal).2
  | .instanceView procedure object field => .ok (g.instanceView procedure object field).2
  | .staticView procedure field => .ok (g.staticView procedure field).2
  | .representative procedure field => .ok (g.representative procedure field).2
  | .standIn procedure tag => .ok (g.standIn procedure tag).2
  | .markSpecial n => g.markSpecial n
  | .editFacts n edit => (g.expectNode n).map fun _ => g.editFacts n edit
  | .addConstraint target kind source path => (g.addConstraint target kind source path).map Prod.snd
  | .registerIncoming field n => .ok (g.registerIncoming field n)
  | .registerOutgoing field n => .ok (g.registerOutgoing field n)
  | .recordAccess statement access => .ok (g.recordAccess statement access)
  | .chainFor n => (g.chainFor n).map Prod.snd
  | .attachChain n id => g.attachChain n id
  | .pushElement id e => .ok (g.pushElement id e)
  | .registerSink site => .ok (g.registerSink site).2

/-- Performs operations one after another. One that is refused leaves the tables as they are. -/
def run (g : GraphTables) (ops : List Operation) : GraphTables :=
  ops.foldl (fun g op => (g.perform op).toOption.getD g) g

theorem run_append (g : GraphTables) (ops later : List Operation) : g.run (ops ++ later) = (g.run ops).run later :=
  List.foldl_append

/-- What every one of some operations keeps, a run of them keeps. -/
theorem leads_run {C : Course GraphTables} {ops : List Operation}
    (h : ∀ op ∈ ops, ∀ g g', g.perform op = .ok g' → C.leads g g') (g : GraphTables) : C.leads g (g.run ops) := by
  induction ops generalizing g with
  | nil => exact C.refl g
  | cons op ops ih =>
      refine C.trans ?_ (ih (fun op hop => h op (List.mem_cons_of_mem _ hop)) _)
      dsimp only
      cases hg : g.perform op with
      | ok g' => exact h op List.mem_cons_self g g' hg
      | error e => exact C.refl g

namespace InStep

/-- Every operation keeps the tables in step. -/
theorem perform {op : Operation} (h : g.InStep) (hg : g.perform op = .ok g') : g'.InStep := by
  cases op with
  | beginBuilding | finishFields | finishPropagation => exact h.advance hg
  | clear => exact h.clear hg
  | valueNode q slot literal => cases hg; exact h.valueNode q slot literal
  | instanceView q object field => cases hg; exact h.pushNumbered q _
  | staticView q field => cases hg; exact h.pushNumbered q _
  | standIn q tag => cases hg; exact h.pushNumbered q _
  | representative q field => cases hg; exact h.representative q field
  | markSpecial n => exact h.markSpecial hg
  | editFacts n edit =>
      obtain ⟨_, _, rfl⟩ := exists_of_map_eq_ok hg
      exact h.editFacts n edit
  | addConstraint target kind source path =>
      obtain ⟨⟨r, _⟩, hadd, rfl⟩ := exists_of_map_eq_ok hg
      exact h.addConstraint hadd
  | registerIncoming field n => cases hg; exact { h with }
  | registerOutgoing field n => cases hg; exact { h with }
  | recordAccess statement access => cases hg; exact { h with }
  | chainFor n =>
      obtain ⟨⟨id, _⟩, hchain, rfl⟩ := exists_of_map_eq_ok hg
      exact h.chainFor hchain
  | attachChain n id => exact h.attachChain hg
  | pushElement id e => cases hg; exact { h with }
  | registerSink site => cases hg; exact h.registerSink site

theorem run (h : g.InStep) (ops : List Operation) : (g.run ops).InStep :=
  leads_run (C := .keeping InStep) (fun _ _ _ _ hg h => h.perform hg) g h

end InStep

end GraphTables

/-- The flow graph after operations one after another. -/
def FlowGraph.run (g : FlowGraph) (ops : List GraphTables.Operation) : FlowGraph :=
  ⟨g.toGraphTables.run ops, g.inStep.run ops⟩

/-- What some operations make of a new flow graph. -/
def FlowGraph.after (e : EntrypointId) (ops : List GraphTables.Operation) : FlowGraph := run { entrypoint := e } ops

theorem FlowGraph.run_append (g : FlowGraph) (ops later : List GraphTables.Operation) :
    g.run (ops ++ later) = (g.run ops).run later := eq_of_tables (GraphTables.run_append g ops later)

end SinkFlow
