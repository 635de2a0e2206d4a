import SinkFlow.Flow.Edit
import SinkFlow.Program

/-!
Collecting fields: every view of a field knows that field, and views that read a static field know the
literals that the static initializer of its class stores there.
-/

namespace SinkFlow

/-- Counts of one collection of fields. -/
structure FieldStats where
  incomingViews : Nat := 0
  outgoingViews : Nat := 0
  initializersWalked : Nat := 0
  /-- Literals that were new to the view that they were added to. -/
  injected : Nat := 0
  deriving DecidableEq, Inhabited

namespace InitializerBody

/-- The blocks that are reached from the queued ones, each once; `limit` bounds their number. Positions
without a block are passed over. -/
def walk (b : InitializerBody) : Nat → List Nat → List Nat → List InitializerBlock
  | 0, _, _ => []
  | _ + 1, [], _ => []
  | limit + 1, i :: queue, seen =>
    match b.blocks[i]? with
    | none => b.walk limit queue seen
    | some block =>
      let fresh := ((block.successors.map UInt64.toNat).filter (· ∉ seen)).eraseDups
      block :: b.walk limit (queue ++ fresh) (seen ++ fresh)

/-- The blocks that are reached from the entry. -/
def reachable (b : InitializerBody) : List InitializerBlock :=
  b.walk (b.blocks.foldl (fun n block => n + block.successors.length) 1) [0] [0]

/-- The literal that an instruction stores into a static field. -/
def stored? (b : InitializerBody) (p : Program) (field : FieldSignature) : Instruction → Option Literal
  | .putField none value f => if f = field then p.literal? b.procedure value else none
  | _ => none

/-- The distinct literals that an initializer stores into a static field. -/
def literalsOf (b : InitializerBody) (p : Program) (field : FieldSignature) : List Literal :=
  ((b.reachable.flatMap InitializerBlock.instructions).filterMap (b.stored? p field)).eraseDups

end InitializerBody

namespace FieldStats

/-- Adds an item to a list of views, and says at how many it was new. -/
def addToViews (i : Item) (t : Trace) : List NodeId → Edit Nat
  | [] => return 0
  | view :: views => do
    let new ← Edit.attempt (·.addFact view i t)
    return (if new then 1 else 0) + (← addToViews i t views)

/-- Makes the views that read a field know it. -/
def addIncoming (s : FieldStats) (field : FieldSignature) : Edit FieldStats := do
  let views := (← get).incomingViews field
  let _ ← addToViews (.inputField field) (some []) views
  return { s with incomingViews := s.incomingViews + views.length }

/-- Makes the views that write a field know it. -/
def addOutgoing (s : FieldStats) (field : FieldSignature) : Edit FieldStats := do
  let views := (← get).outgoingViews field
  let _ ← addToViews (.outputField field) (some []) views
  return { s with outgoingViews := s.outgoingViews + views.length }

/-- The views that read a field as a static one. -/
def staticViews (g : FlowGraph) (field : FieldSignature) : List NodeId :=
  (g.incomingViews field).filter fun n => (g.node? n).any (·.kind.isStaticField)

/-- Adds literals to the views that read a static field. -/
def inject (views : List NodeId) (s : FieldStats) : List Literal → Edit FieldStats
  | [] => return s
  | l :: ls => do
    let new ← addToViews l.item l.trace views
    inject views { s with injected := s.injected + new } ls

/-- Walks the static initializer of a field that is read as a static one. -/
def addInitializer (p : Program) (s : FieldStats) (field : FieldSignature) : Edit FieldStats := do
  let views := staticViews (← get) field
  match p.initializer? field.className with
  | none => return s
  | some body =>
    inject views { s with initializersWalked := s.initializersWalked + 1 } (body.literalsOf p field)

/-- Collects the fields of a graph that has been built. -/
def collect (p : Program) : Edit FieldStats := do
  Edit.attempt fun g => (g.expect .building).map fun _ => ((), g)
  let g ← get
  let s ← g.incomingFields.foldlM addIncoming {}
  let s ← g.outgoingFields.foldlM addOutgoing s
  let static := g.incomingFields.filter fun f => !(staticViews g f).isEmpty
  let s ← static.foldlM (addInitializer p) s
  Edit.attemptUpdate (·.finishFields)
  return s

end FieldStats

/-- Collects the fields of a graph; the graph is given back also when that fails. -/
def FlowGraph.collectFields (g : FlowGraph) (p : Program) : Except AnalysisError FieldStats × FlowGraph :=
  (FieldStats.collect p).runOn g

end SinkFlow
