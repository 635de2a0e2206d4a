import SinkFlow.Build.Run
import SinkFlow.Proofs.Flow.Lookup

/-!
Why a constraint is there. A statement that can be reached relates nodes of its own procedure or views of its own
field, and a statement that receives a parameter or a result relates it to what an earlier statement passed or
returned. For each kind of constraint the reasons say which statements give rise to it.
-/

namespace SinkFlow

/-! ## Statements -/

/-- A statement can be reached from a root over edges. A statement that cannot be looked up leads nowhere. -/
inductive Program.Reaches (p : Program) : StatementId → Prop where
  | root {id : StatementId} (h : id ∈ p.roots) : p.Reaches id
  | edge {id next : StatementId} (h : p.Reaches id) (hknown : (p.statement? id).isSome)
      (hnext : next ∈ p.successors id) : p.Reaches next

/-- A statement of a procedure that can be reached. -/
def Program.Runs (p : Program) (q : ProcedureId) (id : StatementId) (kind : StatementKind) : Prop :=
  p.Reaches id ∧ p.statement? id = some ⟨id, q, kind⟩

namespace StatementKind

/-- A statement relates two values of its procedure: the target is to know what the source knows. -/
inductive Relates : StatementKind → ValueSlot → ConstraintKind → ValueSlot → Prop where
  | phi {target operand : ValueSlot} {operands : List (Option ValueSlot)} (h : some operand ∈ operands) :
      Relates (.phi target operands) target .gePhi operand
  | left {target left right : ValueSlot} : Relates (.normal (.binaryOp target left right)) target .geAssign left
  | right {target left right : ValueSlot} : Relates (.normal (.binaryOp target left right)) target .geAssign right
  | cast {target value : ValueSlot} : Relates (.normal (.checkCast target value)) target .eq value
  | load {target array : ValueSlot} : Relates (.normal (.arrayLoad target array)) target .eq array
  | store {array value : ValueSlot} : Relates (.normal (.arrayStore array value)) array .eq value

/-- The field that a statement reads or writes, or that its heap location is. -/
def field? : StatementKind → Option FieldSignature
  | .normal instruction => instruction.field?
  | .heapParamCallee location | .heapReturnCaller location | .heapReturnCallee location => location.staticField?
  | _ => none

/-- How a statement accesses a field. -/
def access? : StatementKind → Option FieldAccess
  | .normal (.getField _ _ field) => some ⟨field, .get⟩
  | .normal (.putField _ _ field) => some ⟨field, .put⟩
  | _ => none

/-- The value that a statement returns from its procedure. -/
def returned? : StatementKind → Option ValueSlot
  | .normalReturnCallee value => some value
  | .normal (.return value) => value
  | _ => none

end StatementKind

/-! ## Calls -/

/-- A call that is modelled as one of a string builder. -/
def Invoke.BuildsText (config : Config) (call : Invoke) : Prop :=
  config.isStringBuilderClass call.signature.className ∧ call.receiver.isSome ∧
    (call.signature.methodName = "toString" ∨ call.signature.isConstructor ∨
      call.signature.methodName = "append" ∧ call.arguments ≠ [])

/-- The value that a call without a model is assumed to change. -/
def Invoke.changed (call : Invoke) : Option ValueSlot := if call.isStatic then call.result else call.receiver

/-- A rule lets facts flow from one operand into another one. -/
def PropagationRule.Carries (rule : PropagationRule) (target source : Int) : Prop :=
  rule.operator.flowsIntoLeft ∧ target = rule.left ∧ source = rule.right ∨
    rule.operator.flowsIntoRight ∧ target = rule.right ∧ source = rule.left

/-- A call about which nothing is known but that what goes in comes out. -/
structure Setting.Assumes (t : Setting) (call : Invoke) : Prop where
  model : ¬ call.BuildsText t.config
  rules : t.rules.propagation? call.signature = none
  source : t.rules.source? call.signature = none ∨ call.result = none

/-- The kind of the constraints into the value that a call without a model is assumed to change. -/
def Setting.assumedKind (t : Setting) (call : Invoke) : ConstraintKind :=
  if t.config.isUnidirectionalMethod call.signature.methodName then .geUnidirectional else .ge

/-- A reference names a statement of a procedure that can be reached. -/
structure StatementRef.Names (here : StatementRef) (t : Setting) (g : GraphTables) (q : ProcedureId)
    (kind : StatementKind) : Prop where
  entrypoint : here.entrypoint = g.entrypoint
  runs : t.program.Runs q here.statement kind

/-- A reference names a call without a body. -/
structure StatementRef.NamesCall (here : StatementRef) (t : Setting) (g : GraphTables) (q : ProcedureId)
    (call : Invoke) : Prop extends here.Names t g q (.normal (.invoke call)) where
  api : Build.isApiCall t.program here.statement call

/-! ## Constraints -/

namespace GraphTables

/-- A node is a view of a field. -/
def Shows (g : GraphTables) (n : NodeId) (field : FieldSignature) : Prop :=
  ∃ kind, g.kind? n = some kind ∧ kind.field? = some field

/-- A node is the view of a field that an access in a procedure sees: of an object, or of a static field. -/
def IsView (g : GraphTables) (q : ProcedureId) (object : Option ValueSlot) (field : FieldSignature) (n : NodeId) : Prop :=
  match object with
  | some o => ∃ k, g.kind? n = some (.instanceField q k o field)
  | none => ∃ k, g.kind? n = some (.staticField k field)

theorem IsView.shows {g : GraphTables} {q : ProcedureId} {object : Option ValueSlot} {field : FieldSignature} {n : NodeId}
    (h : g.IsView q object field n) : g.Shows n field := by
  cases object <;> obtain ⟨k, hk⟩ := h <;> exact ⟨_, hk, rfl⟩

/-- A statement that can be reached gives rise to a constraint. -/
inductive Justified (t : Setting) (g : GraphTables) : Constraint → Prop where
  | values {here : StatementRef} {q : ProcedureId} {st : StatementKind} {target source : ValueSlot}
      {kind : ConstraintKind} {n m : NodeId} (hhere : here.Names t g q st) (hrelates : st.Relates target kind source)
      (hn : g.valueNode? q target = some n) (hm : g.valueNode? q source = some m) :
      Justified t g ⟨n, kind, m, [here]⟩
  | read {here : StatementRef} {q : ProcedureId} {target : ValueSlot} {object : Option ValueSlot}
      {field : FieldSignature} {n view : NodeId} (hhere : here.Names t g q (.normal (.getField target object field)))
      (hn : g.valueNode? q target = some n) (hview : g.IsView q object field view) :
      Justified t g ⟨n, .eq, view, [here]⟩
  | write {here : StatementRef} {q : ProcedureId} {object : Option ValueSlot} {value : ValueSlot}
      {field : FieldSignature} {n view : NodeId} (hhere : here.Names t g q (.normal (.putField object value field)))
      (hview : g.IsView q object field view) (hn : g.valueNode? q value = some n) :
      Justified t g ⟨view, .eq, n, [here]⟩
  /-- The view of a field is related to an earlier one of the same field. -/
  | views {here : StatementRef} {q : ProcedureId} {st : StatementKind} {field : FieldSignature} {view earlier : NodeId}
      (hhere : here.Names t g q st) (hfield : st.field? = some field) (hview : g.Shows view field)
      (hearlier : g.Shows earlier field) : Justified t g ⟨view, .eq, earlier, [here]⟩
  /-- What is appended to a string builder, or what it is made of. -/
  | append {here : StatementRef} {q : ProcedureId} {call : Invoke} {receiver argument : ValueSlot} {n m : NodeId}
      (hcall : here.NamesCall t g q call) (hclass : t.config.isStringBuilderClass call.signature.className)
      (hmethod : call.signature.methodName = "append" ∨ call.signature.isConstructor)
      (hreceiver : call.receiver = some receiver) (hargument : call.arguments.head? = some argument)
      (hn : g.valueNode? q receiver = some n) (hm : g.valueNode? q argument = some m) :
      Justified t g ⟨n, .geAppend, m, [here]⟩
  /-- The result of appending is the string builder, and so is its text. -/
  | built {here : StatementRef} {q : ProcedureId} {call : Invoke} {receiver result : ValueSlot} {n m : NodeId}
      (hcall : here.NamesCall t g q call) (hclass : t.config.isStringBuilderClass call.signature.className)
      (hmethod : call.signature.methodName = "append" ∨ call.signature.methodName = "toString")
      (hreceiver : call.receiver = some receiver) (hresult : call.result = some result)
      (hn : g.valueNode? q result = some n) (hm : g.valueNode? q receiver = some m) :
      Justified t g ⟨n, .eq, m, [here]⟩
  | rule {here : StatementRef} {q : ProcedureId} {call : Invoke} {set : PropagationRuleSet} {rule : PropagationRule}
      {target source : Int} {a b : ValueSlot} {n m : NodeId} (hcall : here.NamesCall t g q call)
      (hmodel : ¬ call.BuildsText t.config) (hset : t.rules.propagation? call.signature = some set)
      (hrule : rule ∈ set.rules) (hcarries : rule.Carries target source)
      (htarget : call.operand target = some a) (hsource : call.operand source = some b)
      (hn : g.valueNode? q a = some n) (hm : g.valueNode? q b = some m) : Justified t g ⟨n, .ge, m, [here]⟩
  /-- A sensitive result knows its tag. -/
  | source {here : StatementRef} {q : ProcedureId} {call : Invoke} {source : SourceCorrelation} {result : ValueSlot}
      {k : Nat} {n m : NodeId} (hcall : here.NamesCall t g q call) (hmodel : ¬ call.BuildsText t.config)
      (hset : t.rules.propagation? call.signature = none) (hsource : t.rules.source? call.signature = some source)
      (hresult : call.result = some result) (hn : g.valueNode? q result = some n)
      (hm : g.kind? m = some (.standIn k source.tag)) : Justified t g ⟨n, .geUnidirectional, m, [here]⟩
  /-- Constants among the arguments are assumed to flow into the other ones. -/
  | supplied {here : StatementRef} {q : ProcedureId} {call : Invoke} {a b : ValueSlot} {n m : NodeId}
      (hcall : here.NamesCall t g q call) (hassumes : t.Assumes call) (ha : a ∈ call.arguments)
      (hopen : t.program.literal? q a = none) (hb : b ∈ call.arguments)
      (hconstant : (t.program.literal? q b).isSome) (hn : g.valueNode? q a = some n)
      (hm : g.valueNode? q b = some m) : Justified t g ⟨n, .ge, m, [here]⟩
  /-- Arguments are assumed to flow into the value that the call changes. -/
  | assumed {here : StatementRef} {q : ProcedureId} {call : Invoke} {a b : ValueSlot} {n m : NodeId}
      (hcall : here.NamesCall t g q call) (hassumes : t.Assumes call) (ha : call.changed = some a)
      (hb : b ∈ call.arguments) (hn : g.valueNode? q a = some n) (hm : g.valueNode? q b = some m) :
      Justified t g ⟨n, t.assumedKind call, m, [here]⟩
  | parameter {there here : StatementRef} {caller q : ProcedureId} {index : UInt64} {actual formal : ValueSlot}
      {n m : NodeId} (hthere : there.Names t g caller (.paramCaller q index actual))
      (hhere : here.Names t g q (.paramCallee index formal)) (hn : g.valueNode? q formal = some n)
      (hm : g.valueNode? caller actual = some m) : Justified t g ⟨n, .eq, m, [there, here]⟩
  | result {there here : StatementRef} {callee q : ProcedureId} {st : StatementKind} {returned received : ValueSlot}
      {n m : NodeId} (hthere : there.Names t g callee st) (hreturned : st.returned? = some returned)
      (hhere : here.Names t g q (.normalReturnCaller callee received)) (hn : g.valueNode? q received = some n)
      (hm : g.valueNode? callee returned = some m) : Justified t g ⟨n, .eq, m, [there, here]⟩

end GraphTables

end SinkFlow
