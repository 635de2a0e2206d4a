import SinkFlow.Path
import SinkFlow.Signature
import SinkFlow.Flow.Phase

/-! Why an analysis or its configuration is refused, and the wording of each cause. -/

namespace SinkFlow

/-- What is wrong with a configuration. -/
inductive ConfigError where
  | range (field : String) (value min max : Int) (hint : String)
  | custom (text : String)
  /-- The text is no configuration document. -/
  | malformed
  /-- The file cannot be read. -/
  | unreadable
  deriving DecidableEq, Inhabited

/-- The wording of a configuration error, where it has one of its own. -/
def ConfigError.message : ConfigError → Option String
  | range field value min max hint =>
    some ("Invalid range for field '" ++ field ++ "': " ++ Int.repr value ++ " not in " ++ Int.repr min ++
      "..=" ++ Int.repr max ++ ". " ++ hint)
  | custom text => some text
  | malformed => none
  | unreadable => none

/-- What stops an analysis. -/
inductive AnalysisError where
  | config (cause : ConfigError)
  /-- A file cannot be read. -/
  | unreadable
  /-- A text is no document of the expected form. -/
  | malformed
  | ruleTable (text : String)
  /-- A rule or a sink names an operand that the call does not have. -/
  | unresolvedOperand (signature : MethodSignature) (index : Int) (operands : Nat)
  | invalidPhase (expected found : Phase)
  | unknownEntrypoint (entrypoint : EntrypointId)
  | duplicateEntrypoint (entrypoint : EntrypointId)
  | unknownNode (node : NodeId)
  | unknownStatement (statement : StatementId)
  deriving DecidableEq, Inhabited

/-- The wording of an analysis error, where it has one of its own. -/
def AnalysisError.message : AnalysisError → Option String
  | config cause => cause.message.map ("Configuration error: " ++ ·)
  | unreadable => none
  | malformed => none
  | ruleTable text => some ("Rule table error: " ++ text)
  | unresolvedOperand signature index operands =>
    some ("Call " ++ signature.text ++ " has no operand " ++ Int.repr index ++ " (" ++ Nat.repr operands ++
      " operands)")
  | invalidPhase expected found => some ("Typing graph is " ++ found.name ++ ", expected " ++ expected.name)
  | unknownEntrypoint e => some ("Unknown entrypoint: " ++ Nat.repr e.toNat)
  | duplicateEntrypoint e => some ("Entrypoint already analyzed: " ++ Nat.repr e.toNat)
  | unknownNode n => some ("Unknown typing node: " ++ Nat.repr n)
  | unknownStatement s => some ("Unknown statement: " ++ Nat.repr s.toNat)

end SinkFlow
