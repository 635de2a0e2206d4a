import SinkFlow.Json.Reader
import SinkFlow.Json.Writer
import SinkFlow.Program.Document
import SinkFlow.Report

/-! The JSON form of reports. Reading undoes writing. -/

namespace SinkFlow

open Json

/-- A statement reference as a record. -/
def StatementRef.toJson (r : StatementRef) : Json :=
  obj [("entrypoint", idToJson r.entrypoint), ("statement", idToJson r.statement)]

/-- Reads a statement reference. -/
def StatementRef.ofJson (j : Json) : Option StatementRef := do
  let r ← j.record ["entrypoint", "statement"] 2
  return ⟨← r.needed "entrypoint" asUInt32, ← r.needed "statement" asUInt32⟩

/-- A trace as a list, or null if it was dropped. -/
def Trace.toJson : Trace → Json
  | some p => arr (p.map StatementRef.toJson)
  | none => null

/-- A text with its trace as a record. -/
def TextEntry.toJson (e : TextEntry) : Json := obj [("text", str e.text), ("path", Trace.toJson e.path)]

/-- Reads a text with its trace, which may be left out. -/
def TextEntry.ofJson (j : Json) : Option TextEntry := do
  let r ← j.record ["text", "path"] 2
  return ⟨← r.needed "text" asString, ← r.optional "path" (asList StatementRef.ofJson)⟩

namespace SinkReport

/-- A report as a record. -/
def toJson (r : SinkReport) : Json :=
  obj [("entrypoint", idToJson r.entrypoint), ("procedure", idToJson r.procedure),
    ("statement", idToJson r.statement), ("signature", str r.signature.text), ("tag", str r.tag),
    ("texts", arr (r.texts.map TextEntry.toJson)), ("constants", arr (r.constants.map Constant.toJson))]

/-- Reads a report. -/
def ofJson (j : Json) : Option SinkReport := do
  let r ← j.record ["entrypoint", "procedure", "statement", "signature", "tag", "texts", "constants"] 7
  return {
    entrypoint := ← r.needed "entrypoint" asUInt32
    procedure := ← r.needed "procedure" asUInt32
    statement := ← r.needed "statement" asUInt32
    signature := ⟨← r.needed "signature" asString⟩
    tag := ← r.needed "tag" asString
    texts := ← r.needed "texts" (asList TextEntry.ofJson)
    constants := ← r.needed "constants" (asList Constant.ofJson) }

/-- The text of a report, laid out over several lines. -/
def toText (r : SinkReport) : String := r.toJson.pretty 0

/-- Reads the text of a report. -/
def ofText (text : String) : Except AnalysisError SinkReport :=
  match (Json.parse text).bind ofJson with
  | some r => .ok r
  | none => .error .malformed

end SinkReport

end SinkFlow
