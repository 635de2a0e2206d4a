import SinkFlow.Build.Fields
import SinkFlow.Build.Run
import SinkFlow.Config.Document
import SinkFlow.FileTree
import SinkFlow.Propagation.Pass
import SinkFlow.Report
import SinkFlow.Search

/-!
Analyses: the entrypoints of a program are analysed one after another, and then asked what reaches their
sinks. Only an entrypoint whose analysis succeeds is registered, with a graph that does not change any more.
-/

namespace SinkFlow

/-- Counts of the analysis of one entrypoint. -/
structure EntrypointStats where
  entrypoint : EntrypointId
  build : BuildStats
  fields : FieldStats
  propagation : PropagationStats
  deriving DecidableEq, Inhabited

/-- An analysis under way. -/
structure Analysis where
  config : Config
  rules : RuleTables
  /-- Whether it has been asked to stop. -/
  cancelled : Bool := false
  graphs : Registry := ∅

namespace Analysis

/-- An analysis with valid settings. -/
def new (config : Config) (rules : RuleTables) : Except AnalysisError Analysis :=
  match config.validate with
  | .ok () => .ok { config, rules }
  | .error e => .error (.config e)

/-- The content of a file that may not be named. -/
def readOptional (files : FileTree) : Option String → Except AnalysisError String
  | none => .ok ""
  | some path =>
    match files.read? path with
    | some text => .ok text
    | none => .error .unreadable

/-- Loads the rule tables that the settings name. -/
def loadRules (files : FileTree) (sources : RuleSources) : Except AnalysisError RuleTables := do
  let propagation ← readOptional files sources.propagation
  let correlations ← readOptional files sources.sourceCorrelations
  let sinks ← readOptional files sources.sinks
  return RuleTables.ofTexts propagation correlations sinks

/-- Reads the settings in a file. -/
def loadConfig (files : FileTree) (path : String) : Except ConfigError Config :=
  match files.read? path with
  | some text => Config.ofText text
  | none => .error .unreadable

/-- An analysis with the rules that its settings name. -/
def ofConfig (files : FileTree) (config : Config) : Except AnalysisError Analysis := do
  new config (← loadRules files config.rules)

/-- The stages after building: fields are collected, facts are propagated and the graph is cleared. -/
def finish (config : Config) (p : Program) (g : FlowGraph) :
    Except AnalysisError (FieldStats × PropagationStats × FlowGraph) := do
  let (fields, g) := g.collectFields p
  let fields ← fields
  let (propagation, g) ← g.propagate config.maxWorklistIterations
  return (fields, propagation, ← g.clear)

/-- Analyses an entrypoint and registers its graph, unless something fails. -/
def analyze (a : Analysis) (entrypoint : EntrypointId) (p : Program) :
    Except AnalysisError EntrypointStats × Analysis :=
  if a.graphs.contains entrypoint then (.error (.duplicateEntrypoint entrypoint), a)
  else
    let empty : FlowGraph := { entrypoint }
    let outcome := empty.build ⟨p, a.config, a.rules⟩ a.cancelled
    let a := { a with cancelled := outcome.cancelled }
    match outcome.result with
    | .error e => (.error e, a)
    | .ok build =>
      match finish a.config p outcome.graph with
      | .error e => (.error e, a)
      | .ok (fields, propagation, g) =>
        (.ok { entrypoint, build, fields, propagation }, { a with graphs := a.graphs.insert entrypoint g })

/-- The registered entrypoints, sorted. -/
def entrypoints (a : Analysis) : List EntrypointId := a.graphs.inOrder.map Prod.fst

/-- The sinks of all entrypoints, in the order of the entrypoints. -/
def sinks (a : Analysis) : List SinkSite := a.graphs.inOrder.flatMap (·.2.sinks)

/-- The texts and constants that operands know, added to those that are known. -/
def localFacts (g : FlowGraph) : List NodeId → Facts → Except AnalysisError Facts
  | [], known => .ok known
  | n :: ns, known => do
    g.expectNode n
    localFacts g ns (known.merge ((g.factsAt n).filter Search.isContent) [])

/-- Everything that reaches a sink, in its entrypoint and through fields from others. -/
def reaching (a : Analysis) (site : SinkSite) : Except AnalysisError Facts :=
  match a.graphs.get? site.entrypoint with
  | none => .error (.unknownEntrypoint site.entrypoint)
  | some g => do
    let known ← localFacts g site.arguments .empty
    return site.arguments.foldl
      (fun known n =>
        let known := (a.graphs.search a.config.fieldSearchDepth site.entrypoint n .backward known).1
        (a.graphs.search a.config.fieldSearchDepth site.entrypoint n .forward known).1)
      known

/-- The report on a sink. -/
def report (a : Analysis) (site : SinkSite) : Except AnalysisError SinkReport := do
  return SinkReport.ofFacts site (← a.reaching site)

/-- The reports on all sinks. -/
def reports (a : Analysis) : Except AnalysisError (List SinkReport) := a.sinks.mapM a.report

/-- Drops all graphs and starts afresh. -/
def reset (a : Analysis) : Analysis := { a with graphs := ∅, cancelled := false }

end Analysis

end SinkFlow
