import SinkFlow.Error
import SinkFlow.Text.Blank

/-! The settings of an analysis. -/

namespace SinkFlow

/-- The files that hold the rule tables. -/
structure RuleSources where
  propagation : Option String := none
  sourceCorrelations : Option String := none
  sinks : Option String := none
  deriving DecidableEq, Inhabited

/-- The settings of an analysis. -/
structure Config where
  /-- How many entrypoints a search through fields may cross. -/
  fieldSearchDepth : Nat := 2
  /-- How many nodes a pass of the propagation may take up; zero means no limit. -/
  maxWorklistIterations : Nat := 0
  /-- Methods whose calls let facts flow into the target only. -/
  unidirectionalMethods : List String :=
    ["getInputStream", "getOutputStream", "getErrorStream", "openStream", "openConnection"]
  /-- Classes whose calls build up a text. -/
  stringBuilderClasses : List String := ["java.lang.StringBuilder", "java.lang.StringBuffer"]
  rules : RuleSources := {}
  deriving DecidableEq, Inhabited

namespace Config

/-- The name under which these settings are known. -/
def title : String := "AnalysisConfig"

/-- Whether calls of a method let facts flow one way only. -/
def isUnidirectionalMethod (c : Config) (method : String) : Bool := c.unidirectionalMethods.contains method

/-- Whether a class builds up texts. -/
def isStringBuilderClass (c : Config) (className : String) : Bool := c.stringBuilderClasses.contains className

/-- Refuses a search depth outside 1 to 8, then a builder class without a name. -/
def validate (c : Config) : Except ConfigError Unit :=
  if c.fieldSearchDepth = 0 ∨ 8 < c.fieldSearchDepth then
    .error (.range "field_search_depth" c.fieldSearchDepth 1 8
      "Field correlation needs at least one level and explodes past a few")
  else if c.stringBuilderClasses.any fun s => s.toList.all Text.isBlank then
    .error (.custom "string_builder_classes must not contain empty class names")
  else .ok ()

end Config

end SinkFlow
