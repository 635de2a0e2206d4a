import SinkFlow.Order
import SinkFlow.Rule.Reader
import SinkFlow.Table

/-! Rule tables: what is known about each method, merged from all lines about it. -/

namespace SinkFlow

/-- The rules of all methods, by signature. -/
structure RuleTables where
  propagation : Table MethodSignature PropagationRuleSet := ∅
  sources : Table MethodSignature SourceCorrelation := ∅
  sinks : Table MethodSignature SinkDefinition := ∅
  deriving DecidableEq, Inhabited

namespace RuleTables

/-- Adds rules; rules of a method that has some are added to them. -/
def addPropagation (t : RuleTables) (set : PropagationRuleSet) : RuleTables :=
  let merged :=
    match t.propagation.get? set.signature with
    | some present => { present with rules := present.rules ++ set.rules }
    | none => set
  { t with propagation := t.propagation.insert set.signature merged }

/-- Adds a sensitive result; the last word on a method counts. -/
def addSource (t : RuleTables) (source : SourceCorrelation) : RuleTables :=
  { t with sources := t.sources.insert source.signature source }

/-- Adds a sink; a method that is one gets the operands that it does not have yet. -/
def addSink (t : RuleTables) (sink : SinkDefinition) : RuleTables :=
  let merged :=
    match t.sinks.get? sink.signature with
    | some present => { present with arguments := sink.arguments.foldl addOnce present.arguments }
    | none => sink
  { t with sinks := t.sinks.insert sink.signature merged }

/-- The tables of three texts. -/
def ofTexts (propagation sources sinks : String) : RuleTables :=
  let t := (Rule.propagationTable propagation).items.foldl addPropagation {}
  let t := (Rule.sourceTable sources).items.foldl addSource t
  (Rule.sinkTable sinks).items.foldl addSink t

/-- The propagation rules of a method. -/
def propagation? (t : RuleTables) (m : MethodSignature) : Option PropagationRuleSet := t.propagation.get? m

/-- What the result of a method is sensitive as. -/
def source? (t : RuleTables) (m : MethodSignature) : Option SourceCorrelation := t.sources.get? m

/-- What a method leaks. -/
def sink? (t : RuleTables) (m : MethodSignature) : Option SinkDefinition := t.sinks.get? m

/-- Whether a method leaks anything. -/
def isSink (t : RuleTables) (m : MethodSignature) : Bool := (t.sink? m).isSome

/-- Whether there is no rule at all. -/
def isEmpty (t : RuleTables) : Bool := t.propagation.isEmpty && t.sources.isEmpty && t.sinks.isEmpty

end RuleTables

end SinkFlow
