import SinkFlow.Flow.Graph

/-! Reports: everything that is known to reach one sink. -/

namespace SinkFlow

/-- A text that reaches a sink, and its trace. -/
structure TextEntry where
  text : String
  path : Trace
  deriving DecidableEq, Inhabited

/-- What reaches one sink: texts and constants, both sorted. -/
structure SinkReport where
  entrypoint : EntrypointId
  procedure : ProcedureId
  statement : StatementId
  signature : MethodSignature
  tag : String
  texts : List TextEntry
  constants : List Constant
  deriving DecidableEq, Inhabited

namespace SinkReport

/-- The report on a sink that some texts and constants reach. -/
def ofFacts (site : SinkSite) (facts : Facts) : SinkReport where
  entrypoint := site.entrypoint
  procedure := site.procedure
  statement := site.statement
  signature := site.signature
  tag := site.tag
  texts := facts.texts.map fun e => ⟨e.1, e.2⟩
  constants := facts.constants

/-- The entry of a text. -/
def text? (r : SinkReport) (text : String) : Option TextEntry := r.texts.find? (·.text = text)

end SinkReport

end SinkFlow
