import SinkFlow.Config
import SinkFlow.Flow.Edit
import SinkFlow.Program
import SinkFlow.Rule.Tables

/-!
Calls: which constraints a call without a body gives rise to, and which of its operands a sink leaks. The
first of four models that applies is taken: string builder, propagation rules, sensitive result, and the
general assumption that what goes in comes out.
-/

namespace SinkFlow

/-- What an analysis is given: the program, the settings and the rules. -/
structure Setting where
  program : Program
  config : Config
  rules : RuleTables

/-- A call in its place. -/
structure CallSite where
  procedure : ProcedureId
  here : StatementRef
  call : Invoke
  deriving DecidableEq, Inhabited

/-- The model that was taken for a call. -/
inductive CallModel where
  | stringBuilder
  | propagationRule
  | sourceCorrelation
  | heuristic
  deriving DecidableEq, Inhabited

/-- The node of a value of the program. -/
def Program.slotNode (p : Program) (procedure : ProcedureId) (slot : ValueSlot) : Edit NodeId :=
  .change fun g => g.valueNode procedure slot (p.literal? procedure slot)

namespace CallSite

/-- The path of every constraint that the call gives rise to. -/
def path (s : CallSite) : Path := [s.here]

/-- The node of a value of the calling procedure. -/
def slotNode (s : CallSite) (p : Program) (slot : ValueSlot) : Edit NodeId := p.slotNode s.procedure slot

/-- The node of an operand given by its index. -/
def operandNode (s : CallSite) (p : Program) (index : Int) : Edit NodeId :=
  match s.call.operand index with
  | some slot => s.slotNode p slot
  | none => throw (.unresolvedOperand s.call.signature index s.call.uses.length)

/-- The element that appending a node adds to a chain: the literal of a constant, else the node. -/
def appended (s : CallSite) (g : FlowGraph) (argument : NodeId) : AppendElement :=
  match (g.node? argument).bind Node.literal? with
  | some l => .literal l.render
  | none => .operand argument s.here

/-- Models `toString`: its result, if it is used, is the receiver. -/
def modelToString (s : CallSite) (p : Program) (receiverSlot : ValueSlot) : Edit Unit :=
  match s.call.result with
  | some slot => do
    let receiver ← s.slotNode p receiverSlot
    let result ← s.slotNode p slot
    Edit.relate result .eq receiver s.path
  | none => pure ()

/-- Models appending an argument to the chain of the receiver. The result of `append`, if it is used, is the
receiver and goes on the same chain. -/
def modelAppend (s : CallSite) (p : Program) (receiverSlot argumentSlot : ValueSlot) (resultSlot : Option ValueSlot) :
    Edit Unit := do
  let receiver ← s.slotNode p receiverSlot
  let argument ← s.slotNode p argumentSlot
  Edit.relate receiver .geAppend argument s.path
  let chain ← Edit.attempt (·.chainFor receiver)
  Edit.update fun g => g.pushElement chain (s.appended g argument)
  match resultSlot with
  | some slot => do
    let result ← s.slotNode p slot
    Edit.relate result .eq receiver s.path
    Edit.attemptUpdate (·.attachChain result chain)
  | none => pure ()

/-- Models a call of a string builder, and says whether it is one that is modelled. -/
def modelStringBuilder (s : CallSite) (p : Program) : Edit Bool :=
  match s.call.receiver with
  | none => return false
  | some receiver =>
    if s.call.signature.methodName = "toString" then do
      s.modelToString p receiver
      return true
    else
      let isAppend := s.call.signature.methodName == "append"
      if !isAppend && !s.call.signature.isConstructor then return false
      else
        match s.call.arguments with
        | [] => return s.call.signature.isConstructor
        | argument :: _ => do
          s.modelAppend p receiver argument (if isAppend then s.call.result else none)
          return true

/-- Applies one propagation rule. -/
def applyRule (s : CallSite) (p : Program) (rule : PropagationRule) : Edit Unit := do
  let left ← s.operandNode p rule.left
  let right ← s.operandNode p rule.right
  if rule.operator.flowsIntoLeft then Edit.relate left .ge right s.path
  if rule.operator.flowsIntoRight then Edit.relate right .ge left s.path

/-- Makes a sensitive result know its tag. -/
def applySource (s : CallSite) (p : Program) (resultSlot : ValueSlot) (source : SourceCorrelation) : Edit Unit := do
  let result ← s.slotNode p resultSlot
  let tag ← Edit.change (·.standIn s.procedure source.tag)
  Edit.relate result .geUnidirectional tag s.path

/-- The arguments of a call as distinct nodes: those that can learn, and the constants. -/
structure Arguments where
  free : List NodeId := []
  constants : List NodeId := []
  deriving DecidableEq, Inhabited

/-- Sorts the arguments of a call by whether they are constants. -/
def sortArguments (s : CallSite) (p : Program) : List ValueSlot → Arguments → Edit Arguments
  | [], acc => return acc
  | slot :: slots, acc => do
    let n ← s.slotNode p slot
    let g ← get
    if (g.node? n).any Node.isConstant then
      s.sortArguments p slots { acc with constants := addOnce acc.constants n }
    else s.sortArguments p slots { acc with free := addOnce acc.free n }

/-- The node of an operand that may be absent. -/
def optionalNode (s : CallSite) (p : Program) : Option ValueSlot → Edit (Option NodeId)
  | some slot => some <$> s.slotNode p slot
  | none => return none

/-- Assumes that constants flow into the other arguments, and all of these, or the constants if there are
no others, into the receiver of an instance call or the result of a static one. -/
def applyHeuristic (s : CallSite) (p : Program) (config : Config) : Edit Unit := do
  let receiver ← s.optionalNode p s.call.receiver
  let result ← s.optionalNode p s.call.result
  let arguments ← s.sortArguments p s.call.arguments {}
  arguments.free.forM fun n => arguments.constants.forM fun c => Edit.relate n .ge c s.path
  match if s.call.isStatic then result else receiver with
  | none => pure ()
  | some target =>
    let kind : ConstraintKind :=
      if config.isUnidirectionalMethod s.call.signature.methodName then .geUnidirectional else .ge
    let sources := if arguments.free.isEmpty then arguments.constants else arguments.free
    sources.forM fun n => Edit.relate target kind n s.path

/-- Models a call by rules, by its sensitive result or by the general assumption. -/
def modelByRules (s : CallSite) (t : Setting) : Edit CallModel :=
  match t.rules.propagation? s.call.signature with
  | some set => do
    set.rules.forM (s.applyRule t.program)
    return .propagationRule
  | none =>
    match t.rules.source? s.call.signature, s.call.result with
    | some source, some slot => do
      s.applySource t.program slot source
      return .sourceCorrelation
    | _, _ => do
      s.applyHeuristic t.program t.config
      return .heuristic

/-- Adds the constraints of a call without a body. -/
def model (s : CallSite) (t : Setting) : Edit CallModel := do
  let built ←
    if t.config.isStringBuilderClass s.call.signature.className then s.modelStringBuilder t.program
    else pure false
  if built then return .stringBuilder else s.modelByRules t

/-- Marks the operands that a sink leaks, and lists their nodes once each. -/
def markOperands (s : CallSite) (p : Program) : List Int → List NodeId → Edit (List NodeId)
  | [], acc => return acc
  | index :: rest, acc => do
    let n ← s.operandNode p index
    Edit.attemptUpdate (·.markSpecial n)
    s.markOperands p rest (addOnce acc n)

/-- Lists a call of a sink, and says whether it is newly listed. -/
def checkSink (s : CallSite) (t : Setting) : Edit Bool :=
  match t.rules.sink? s.call.signature with
  | none => return false
  | some sink => do
    let arguments ← s.markOperands t.program sink.arguments []
    Edit.change fun g => g.registerSink
      { entrypoint := g.entrypoint, procedure := s.procedure, statement := s.here.statement
        signature := s.call.signature, tag := sink.tag, arguments }

end CallSite

end SinkFlow
