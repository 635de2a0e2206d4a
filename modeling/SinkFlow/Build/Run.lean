import SinkFlow.Build.Call
import SinkFlow.Build.Gate

/-!
Building a flow graph: one breadth-first run over the dependence graph from each of its roots. Each run pairs
the parameters and results of callers and callees, and relates the views of one field.
-/

namespace SinkFlow

/-- Counts of one build. -/
structure BuildStats where
  roots : Nat := 0
  statementsProcessed : Nat := 0
  /-- Statements whose successors were not followed. -/
  gated : Nat := 0
  /-- Statements that cannot be looked up, and results received from a callee that returned none. -/
  anomalies : Nat := 0
  stringBuilderCalls : Nat := 0
  ruleCalls : Nat := 0
  sourceCalls : Nat := 0
  heuristicCalls : Nat := 0
  sinks : Nat := 0
  nodes : Nat := 0
  constraints : List (ConstraintKind × Nat) := []
  /-- Whether the build ended before all roots were followed. -/
  cancelled : Bool := false
  deriving DecidableEq, Inhabited

namespace BuildStats

/-- The number of constraints of all kinds. -/
def constraintTotal (s : BuildStats) : Nat := s.constraints.foldl (fun n c => n + c.2) 0

/-- Counts a call under its model. -/
def countCall (s : BuildStats) : CallModel → BuildStats
  | .stringBuilder => { s with stringBuilderCalls := s.stringBuilderCalls + 1 }
  | .propagationRule => { s with ruleCalls := s.ruleCalls + 1 }
  | .sourceCorrelation => { s with sourceCalls := s.sourceCalls + 1 }
  | .heuristic => { s with heuristicCalls := s.heuristicCalls + 1 }

end BuildStats

/-- What one run remembers: actual parameters by callee and position, until they are received; the last
returned value of each procedure; and the views of each field. -/
structure Pairing where
  parameters : Table (ProcedureId × UInt64) (List (NodeId × StatementRef)) := ∅
  returns : Table ProcedureId (NodeId × StatementRef) := ∅
  views : Table FieldSignature (List NodeId) := ∅
  deriving DecidableEq, Inhabited

/-- The state of a build. -/
structure BuildState where
  graph : FlowGraph
  gate : Gate := {}
  pairing : Pairing := {}
  stats : BuildStats := {}
  /-- The statements that were handled, last one first. -/
  handled : List StatementId := []
  /-- Whether the analysis has been asked to stop. -/
  cancelled : Bool := false
  deriving DecidableEq, Inhabited

/-- A step of a build; a step that fails keeps what was built before. -/
abbrev Build := ExceptT AnalysisError (StateM BuildState)

namespace Build

variable {α : Type}

/-- Edits the flow graph. -/
def edit (e : Edit α) : Build α :=
  ExceptT.mk fun s =>
    let (r, g) := e.runOn s.graph
    (r, { s with graph := g })

/-- Changes the counts. -/
def count (f : BuildStats → BuildStats) : Build Unit := modify fun s => { s with stats := f s.stats }

/-- Changes what the run remembers. -/
def remember (f : Pairing → Pairing) : Build Unit := modify fun s => { s with pairing := f s.pairing }

/-- Counts an anomaly. -/
def anomaly : Build Unit := count fun s => { s with anomalies := s.anomalies + 1 }

/-- Relates a view to the views of its field that the run has seen before. -/
def unify (field : FieldSignature) (view : NodeId) (path : Path) : Build Unit := do
  let seen := ((← get).pairing.views.get? field).getD []
  seen.forM fun earlier => edit (Edit.relate view .eq earlier path)
  remember fun p => { p with views := p.views.insert field (addOnce seen view) }

/-- Adds the view of a field that one access sees. -/
def newView (procedure : ProcedureId) (object : Option ValueSlot) (field : FieldSignature) : Build NodeId :=
  edit <| Edit.change fun g =>
    match object with
    | some o => g.instanceView procedure o field
    | none => g.staticView procedure field

/-- Relates the nodes of two values of a procedure. -/
def relateSlots (p : Program) (procedure : ProcedureId) (target : ValueSlot) (kind : ConstraintKind)
    (source : ValueSlot) (path : Path) : Build Unit :=
  edit do
    let t ← p.slotNode procedure target
    let s ← p.slotNode procedure source
    Edit.relate t kind s path

/-- Remembers what a procedure returns. -/
def returned (p : Program) (procedure : ProcedureId) (slot : ValueSlot) (here : StatementRef) : Build Unit := do
  let n ← edit (p.slotNode procedure slot)
  remember fun r => { r with returns := r.returns.insert procedure (n, here) }

/-- Whether a call has no body to go into: it is known to be one, or no edge leads on from it. -/
def isApiCall (p : Program) (statement : StatementId) (call : Invoke) : Bool :=
  call.library || (p.successors statement).isEmpty

/-- Handles a call: it may be a sink, and it is modelled if it has no body. -/
def visitCall (t : Setting) (site : CallSite) : Build Unit := do
  let _ ← edit (site.checkSink t)
  if isApiCall t.program site.here.statement site.call then
    let model ← edit (site.model t)
    count (·.countCall model)

/-- Handles the instruction of a normal statement. -/
def visitInstruction (t : Setting) (procedure : ProcedureId) (here : StatementRef) : Instruction → Build Unit
  | .getField target object field => do
    let n ← edit (t.program.slotNode procedure target)
    let view ← newView procedure object field
    edit (Edit.relate n .eq view [here])
    edit (Edit.update fun g => (g.registerIncoming field view).recordAccess here.statement ⟨field, .get⟩)
    unify field view [here]
  | .putField object value field => do
    let n ← edit (t.program.slotNode procedure value)
    let view ← newView procedure object field
    edit (Edit.relate view .eq n [here])
    edit (Edit.update fun g => (g.registerOutgoing field view).recordAccess here.statement ⟨field, .put⟩)
    unify field view [here]
  | .checkCast target value => relateSlots t.program procedure target .eq value [here]
  | .arrayLoad target array => relateSlots t.program procedure target .eq array [here]
  | .arrayStore array value => relateSlots t.program procedure array .eq value [here]
  | .return (some value) => returned t.program procedure value here
  | .binaryOp target left right => do
    relateSlots t.program procedure target .geAssign left [here]
    relateSlots t.program procedure target .geAssign right [here]
  | .invoke call => visitCall t ⟨procedure, here, call⟩
  | .return none | .new _ | .instanceOf _ _ | .other => pure ()

/-- Handles a heap statement: in all procedures but the root one, its static field has one view for the
whole procedure. -/
def visitHeap (t : Setting) (procedure : ProcedureId) (here : StatementRef) (location : HeapLocation) : Build Unit :=
  match location.staticField? with
  | none => pure ()
  | some field =>
    if t.program.rootProcedure = some procedure then pure ()
    else do
      let (view, _) ← edit (Edit.change (·.representative procedure field))
      unify field view [here]

/-- Handles a join: every known operand flows into its target. -/
def visitPhi (p : Program) (procedure : ProcedureId) (here : StatementRef) (target : ValueSlot)
    (operands : List (Option ValueSlot)) : Build Unit := do
  let joined ← edit (p.slotNode procedure target)
  (operands.filterMap id).forM fun operand => edit do
    let branch ← p.slotNode procedure operand
    Edit.relate joined .gePhi branch [here]

/-- Handles a received parameter: it is every actual one passed since the last time. -/
def visitParameter (p : Program) (procedure : ProcedureId) (here : StatementRef) (index : UInt64)
    (slot : ValueSlot) : Build Unit := do
  let formal ← edit (p.slotNode procedure slot)
  let actuals := ((← get).pairing.parameters.get? (procedure, index)).getD []
  remember fun r => { r with parameters := r.parameters.erase (procedure, index) }
  actuals.forM fun actual => edit (Edit.relate formal .eq actual.1 [actual.2, here])

/-- Handles a statement. -/
def visit (t : Setting) (statement : Statement) : Build Unit := do
  let here : StatementRef := ⟨(← get).graph.entrypoint, statement.id⟩
  let procedure := statement.procedure
  match statement.kind with
  | .phi target operands => visitPhi t.program procedure here target operands
  | .normal instruction => visitInstruction t procedure here instruction
  | .paramCaller callee index value => do
    let actual ← edit (t.program.slotNode procedure value)
    remember fun r =>
      let passed := (r.parameters.get? (callee, index)).getD []
      { r with parameters := r.parameters.insert (callee, index) (passed ++ [(actual, here)]) }
  | .paramCallee index value => visitParameter t.program procedure here index value
  | .normalReturnCaller callee value => do
    let received ← edit (t.program.slotNode procedure value)
    match (← get).pairing.returns.get? callee with
    | some (n, origin) => edit (Edit.relate received .eq n [origin, here])
    | none => anomaly
  | .normalReturnCallee value => returned t.program procedure value here
  | .heapParamCallee location => visitHeap t procedure here location
  | .heapReturnCaller location => visitHeap t procedure here location
  | .heapReturnCallee location => visitHeap t procedure here location

/-- Looks a statement up; this is where an analysis may be asked to stop. -/
def lookUp (p : Program) (id : StatementId) : Build (Option Statement) := do
  if p.cancelAt = some id then modify fun s => { s with cancelled := true }
  return p.statement? id

/-- Handles a statement if it can be looked up, and says whether to go on to its successors. -/
def process (t : Setting) (id : StatementId) : Build Bool := do
  match ← lookUp t.program id with
  | none =>
    anomaly
    return false
  | some statement =>
    let (expand, gate) := (← get).gate.arrive id (t.program.predecessorCount id)
    modify fun s => { s with gate, handled := id :: s.handled }
    visit t statement
    if !expand then count fun s => { s with gated := s.gated + 1 }
    return expand

/-- Works through the queue; `limit` bounds the number of statements, which are queued once each. -/
def explore (t : Setting) : Nat → List StatementId → List StatementId → Build Unit
  | 0, _, _ => pure ()
  | _ + 1, [], _ => pure ()
  | limit + 1, id :: queue, visited => do
    if ← process t id then
      let fresh := ((t.program.successors id).filter (· ∉ visited)).eraseDups
      explore t limit (queue ++ fresh) (visited ++ fresh)
    else explore t limit queue visited

/-- One run from a root. There are no more statements to queue than identifiers. -/
def runRoot (t : Setting) (root : StatementId) : Build Unit := do
  modify fun s => { s with pairing := {} }
  explore t UInt32.size [root] [root]

/-- One run from each root, unless the analysis has been asked to stop. -/
def runRoots (t : Setting) : List StatementId → Build Unit
  | [] => pure ()
  | root :: roots => do
    if (← get).cancelled then count fun s => { s with cancelled := true }
    else
      runRoot t root
      runRoots t roots

/-- A whole build of an empty graph. -/
def complete (t : Setting) : Build BuildStats := do
  edit (Edit.attemptUpdate (·.beginBuilding))
  let roots := t.program.roots
  count fun s => { s with roots := roots.length }
  runRoots t roots
  let s ← get
  return { s.stats with
    statementsProcessed := s.handled.length, nodes := s.graph.nodes.size, sinks := s.graph.sinks.length
    constraints := s.graph.constraintCounts }

end Build

/-- What a build leaves: its counts or why it failed, the graph as far as it was built, and whether the
analysis has been asked to stop. -/
structure BuildOutcome where
  result : Except AnalysisError BuildStats
  graph : FlowGraph
  cancelled : Bool

/-- Builds an empty flow graph; `cancelled` says whether the analysis has been asked to stop before. -/
def FlowGraph.build (g : FlowGraph) (t : Setting) (cancelled : Bool) : BuildOutcome :=
  let (result, s) := (Build.complete t).run { graph := g, cancelled }
  ⟨result, s.graph, s.cancelled⟩

end SinkFlow
