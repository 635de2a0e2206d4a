import SinkFlow.Json
import SinkFlow.Program.Graph

/-! The JSON form of dependence graphs. Reading undoes writing. -/

namespace SinkFlow

open Json

/-- A signed 64-bit number, a bit pattern, a truth value, a character or null, under its name. -/
def Constant.toJson : Constant → Json
  | int v => obj [("Int", .int v.toInt)]
  | float bits => obj [("Float", nat bits.toNat)]
  | bool b => obj [("Bool", .bool b)]
  | char c => obj [("Char", str (String.ofList [c]))]
  | null => str "Null"

/-- Reads a constant. -/
def Constant.ofJson (j : Json) : Option Constant :=
  match j.asVariant with
  | some ("Int", some v) => v.asInt64.map int
  | some ("Float", some v) => v.asUInt64.map float
  | some ("Bool", some v) => v.asBool.map bool
  | some ("Char", some v) => v.asChar.map char
  | some ("Null", none) => some null
  | some ("Null", some .null) => some null
  | _ => none

/-- A text or a constant, under its name. -/
def Literal.toJson : Literal → Json
  | text t => obj [("Text", str t)]
  | constant c => obj [("Constant", c.toJson)]

/-- Reads a literal. -/
def Literal.ofJson (j : Json) : Option Literal :=
  match j.asVariant with
  | some ("Text", some v) => v.asString.map text
  | some ("Constant", some v) => (Constant.ofJson v).map constant
  | _ => none

/-- A 32-bit number. -/
def idToJson (n : UInt32) : Json := nat n.toNat

/-- A 32-bit number, or null. -/
def idOrNull : Option UInt32 → Json
  | some n => idToJson n
  | none => null

/-- A field as a record of class and name. -/
def FieldSignature.toJson (f : FieldSignature) : Json :=
  obj [("class", str f.className), ("name", str f.name)]

/-- Reads a field. -/
def FieldSignature.ofJson (j : Json) : Option FieldSignature := do
  let r ← j.record ["class", "name"] 2
  return ⟨← r.needed "class" asString, ← r.needed "name" asString⟩

/-- The members of a call. -/
def Invoke.members (c : Invoke) : List (String × Json) :=
  [("signature", str c.signature.text), ("is_static", .bool c.isStatic), ("uses", arr (c.uses.map idToJson)),
    ("def", idOrNull c.result), ("library", .bool c.library)]

/-- Reads a call; without a word on it the callee counts as having a body. -/
def Invoke.ofJson (j : Json) : Option Invoke := do
  let r ← j.record ["signature", "is_static", "uses", "def", "library"] 4
  return {
    signature := ⟨← r.needed "signature" asString⟩
    isStatic := ← r.needed "is_static" asBool
    uses := ← r.needed "uses" (asList asUInt32)
    result := ← r.optional "def" asUInt32
    library := ← r.defaulted "library" false asBool }

namespace Instruction

/-- An instruction as a record tagged by its operation. -/
def toJson : Instruction → Json
  | getField target object field =>
    obj [("op", str "get_field"), ("def", idToJson target), ("object", idOrNull object), ("field", field.toJson)]
  | putField object value field =>
    obj [("op", str "put_field"), ("object", idOrNull object), ("value", idToJson value), ("field", field.toJson)]
  | checkCast target value =>
    obj [("op", str "check_cast"), ("def", idToJson target), ("value", idToJson value)]
  | new target => obj [("op", str "new"), ("def", idToJson target)]
  | arrayLoad target array =>
    obj [("op", str "array_load"), ("def", idToJson target), ("array", idToJson array)]
  | arrayStore array value =>
    obj [("op", str "array_store"), ("array", idToJson array), ("value", idToJson value)]
  | .return value => obj [("op", str "return"), ("value", idOrNull value)]
  | instanceOf target value =>
    obj [("op", str "instance_of"), ("def", idToJson target), ("value", idToJson value)]
  | binaryOp target left right =>
    obj [("op", str "binary_op"), ("def", idToJson target), ("left", idToJson left), ("right", idToJson right)]
  | invoke call => obj (("op", str "invoke") :: call.members)
  | other => obj [("op", str "other")]

/-- The names of the operations. -/
def tags : List String :=
  ["get_field", "put_field", "check_cast", "new", "array_load", "array_store", "return", "instance_of",
    "binary_op", "invoke", "other"]

/-- Reads the members of an instruction with a given operation. -/
def ofTagged (tag : String) (body : Json) : Option Instruction :=
  if tag = "get_field" then do
    let r ← body.record ["def", "object", "field"] 3
    return getField (← r.needed "def" asUInt32) (← r.optional "object" asUInt32) (← r.needed "field" FieldSignature.ofJson)
  else if tag = "put_field" then do
    let r ← body.record ["object", "value", "field"] 3
    return putField (← r.optional "object" asUInt32) (← r.needed "value" asUInt32) (← r.needed "field" FieldSignature.ofJson)
  else if tag = "check_cast" then do
    let r ← body.record ["def", "value"] 2
    return checkCast (← r.needed "def" asUInt32) (← r.needed "value" asUInt32)
  else if tag = "new" then do
    let r ← body.record ["def"] 1
    return new (← r.needed "def" asUInt32)
  else if tag = "array_load" then do
    let r ← body.record ["def", "array"] 2
    return arrayLoad (← r.needed "def" asUInt32) (← r.needed "array" asUInt32)
  else if tag = "array_store" then do
    let r ← body.record ["array", "value"] 2
    return arrayStore (← r.needed "array" asUInt32) (← r.needed "value" asUInt32)
  else if tag = "return" then do
    let r ← body.record ["value"] 1
    return .return (← r.optional "value" asUInt32)
  else if tag = "instance_of" then do
    let r ← body.record ["def", "value"] 2
    return instanceOf (← r.needed "def" asUInt32) (← r.needed "value" asUInt32)
  else if tag = "binary_op" then do
    let r ← body.record ["def", "left", "right"] 3
    return binaryOp (← r.needed "def" asUInt32) (← r.needed "left" asUInt32) (← r.needed "right" asUInt32)
  else if tag = "invoke" then (Invoke.ofJson body).map invoke
  else if tag = "other" then if body.isBare then some other else none
  else none

/-- Reads an instruction. Inside a statement its operation may also be given by position. -/
def ofJson (inStatement : Bool) (j : Json) : Option Instruction := do
  let (tag, body) ← j.tagged "op" tags inStatement
  ofTagged tag body

end Instruction

/-- A location as a tagged record. -/
def HeapLocation.toJson : HeapLocation → Json
  | staticField f => obj [("type", str "static_field"), ("field", f.toJson)]
  | other => obj [("type", str "other")]

/-- Reads a location. -/
def HeapLocation.ofJson (j : Json) : Option HeapLocation := do
  let (tag, body) ← j.tagged "type" ["static_field", "other"] true
  if tag = "static_field" then do
    let r ← body.record ["field"] 1
    return staticField (← r.needed "field" FieldSignature.ofJson)
  else if body.isBare then some other
  else none

namespace StatementKind

/-- A statement kind as a tagged record. -/
def toJson : StatementKind → Json
  | phi target operands =>
    obj [("type", str "phi"), ("def", idToJson target), ("operands", arr (operands.map idOrNull))]
  | normal i => obj [("type", str "normal"), ("instruction", i.toJson)]
  | paramCaller callee index value =>
    obj [("type", str "param_caller"), ("callee", idToJson callee), ("index", nat index.toNat), ("value", idToJson value)]
  | paramCallee index value =>
    obj [("type", str "param_callee"), ("index", nat index.toNat), ("value", idToJson value)]
  | normalReturnCaller callee value =>
    obj [("type", str "normal_return_caller"), ("callee", idToJson callee), ("value", idToJson value)]
  | normalReturnCallee value => obj [("type", str "normal_return_callee"), ("value", idToJson value)]
  | heapParamCallee l => obj [("type", str "heap_param_callee"), ("location", l.toJson)]
  | heapReturnCaller l => obj [("type", str "heap_return_caller"), ("location", l.toJson)]
  | heapReturnCallee l => obj [("type", str "heap_return_callee"), ("location", l.toJson)]

/-- The names of the statement kinds. -/
def tags : List String :=
  ["phi", "normal", "param_caller", "param_callee", "normal_return_caller", "normal_return_callee",
    "heap_param_callee", "heap_return_caller", "heap_return_callee"]

/-- Reads the location of a heap statement. -/
def location (body : Json) : Option HeapLocation := do
  let r ← body.record ["location"] 1
  r.needed "location" HeapLocation.ofJson

/-- Reads the members of a statement of a given kind. -/
def ofTagged (tag : String) (body : Json) : Option StatementKind :=
  if tag = "phi" then do
    let r ← body.record ["def", "operands"] 2
    return phi (← r.needed "def" asUInt32) (← r.needed "operands" (asList (orNull asUInt32)))
  else if tag = "normal" then do
    let r ← body.record ["instruction"] 1
    return normal (← r.needed "instruction" (Instruction.ofJson true))
  else if tag = "param_caller" then do
    let r ← body.record ["callee", "index", "value"] 3
    return paramCaller (← r.needed "callee" asUInt32) (← r.needed "index" asUInt64) (← r.needed "value" asUInt32)
  else if tag = "param_callee" then do
    let r ← body.record ["index", "value"] 2
    return paramCallee (← r.needed "index" asUInt64) (← r.needed "value" asUInt32)
  else if tag = "normal_return_caller" then do
    let r ← body.record ["callee", "value"] 2
    return normalReturnCaller (← r.needed "callee" asUInt32) (← r.needed "value" asUInt32)
  else if tag = "normal_return_callee" then do
    let r ← body.record ["value"] 1
    return normalReturnCallee (← r.needed "value" asUInt32)
  else if tag = "heap_param_callee" then (location body).map heapParamCallee
  else if tag = "heap_return_caller" then (location body).map heapReturnCaller
  else if tag = "heap_return_callee" then (location body).map heapReturnCallee
  else none

/-- Reads a statement kind. -/
def ofJson (j : Json) : Option StatementKind := do
  let (tag, body) ← j.tagged "type" tags false
  ofTagged tag body

end StatementKind

/-- A statement as a record. -/
def Statement.toJson (s : Statement) : Json :=
  obj [("id", idToJson s.id), ("procedure", idToJson s.procedure), ("kind", s.kind.toJson)]

/-- Reads a statement. -/
def Statement.ofJson (j : Json) : Option Statement := do
  let r ← j.record ["id", "procedure", "kind"] 3
  return ⟨← r.needed "id" asUInt32, ← r.needed "procedure" asUInt32, ← r.needed "kind" StatementKind.ofJson⟩

/-- A block as a record. -/
def InitializerBlock.toJson (b : InitializerBlock) : Json :=
  obj [("instructions", arr (b.instructions.map Instruction.toJson)),
    ("successors", arr (b.successors.map fun n => nat n.toNat))]

/-- Reads a block. -/
def InitializerBlock.ofJson (j : Json) : Option InitializerBlock := do
  let r ← j.record ["instructions", "successors"] 2
  return ⟨← r.needed "instructions" (asList (Instruction.ofJson false)), ← r.needed "successors" (asList asUInt64)⟩

/-- An initializer as a record. -/
def InitializerBody.toJson (b : InitializerBody) : Json :=
  obj [("procedure", idToJson b.procedure), ("blocks", arr (b.blocks.map InitializerBlock.toJson))]

/-- Reads an initializer. -/
def InitializerBody.ofJson (j : Json) : Option InitializerBody := do
  let r ← j.record ["procedure", "blocks"] 2
  return ⟨← r.needed "procedure" asUInt32, ← r.needed "blocks" (asList InitializerBlock.ofJson)⟩

/-- The literal of a slot as a record. -/
def LiteralEntry.toJson (e : LiteralEntry) : Json :=
  obj [("procedure", idToJson e.procedure), ("slot", idToJson e.slot), ("literal", e.literal.toJson)]

/-- Reads the literal of a slot. -/
def LiteralEntry.ofJson (j : Json) : Option LiteralEntry := do
  let r ← j.record ["procedure", "slot", "literal"] 3
  return ⟨← r.needed "procedure" asUInt32, ← r.needed "slot" asUInt32, ← r.needed "literal" Literal.ofJson⟩

/-- A document as a record. -/
def GraphDocument.toJson (d : GraphDocument) : Json :=
  obj [("root_procedure", idOrNull d.rootProcedure), ("statements", arr (d.statements.map Statement.toJson)),
    ("edges", arr (d.edges.map fun e => arr [idToJson e.1, idToJson e.2])),
    ("literals", arr (d.literals.map LiteralEntry.toJson)),
    ("initializers", arr (d.initializers.map fun e => arr [str e.1, e.2.toJson]))]

/-- Reads a document; every part of it may be left out. -/
def GraphDocument.ofJson (j : Json) : Option GraphDocument := do
  let r ← j.record ["root_procedure", "statements", "edges", "literals", "initializers"] 0
  return {
    rootProcedure := ← r.optional "root_procedure" asUInt32
    statements := ← r.defaulted "statements" [] (asList Statement.ofJson)
    edges := ← r.defaulted "edges" [] (asList (asPair asUInt32 asUInt32))
    literals := ← r.defaulted "literals" [] (asList LiteralEntry.ofJson)
    initializers := ← r.defaulted "initializers" [] (asList (asPair asString InitializerBody.ofJson)) }

/-- The dependence graph that a JSON value describes. -/
def DependenceGraph.ofJson (L : DigraphLibrary Statement) (j : Json) : Except AnalysisError (DependenceGraph L) :=
  match GraphDocument.ofJson j with
  | some d => DependenceGraph.ofDocument L d
  | none => .error .malformed

end SinkFlow
