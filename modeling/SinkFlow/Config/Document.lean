import SinkFlow.Config
import SinkFlow.Yaml.Reader
import SinkFlow.Yaml.Writer

/-! Settings as YAML documents. A setting that a document leaves out has its default. -/

namespace SinkFlow

namespace Yaml

/-- Whether a node is left out. -/
def isAbsent : Yaml → Bool
  | scalar text style _ => style = .plain && text.isEmpty
  | _ => false

/-- The text of a scalar. -/
def asText (document node : Yaml) : Option String :=
  match resolve document node with
  | scalar text _ _ => some text
  | _ => none

/-- The entries of a mapping with their names; a node that is left out is a mapping without entries. -/
def asEntries (document node : Yaml) : Option (List (String × Yaml)) :=
  match resolve document node with
  | map entries => entries.mapM fun (key, value) => (asText document key).map (·, value)
  | node => if node.isAbsent then some [] else none

/-- The texts of a list; a node that is left out is a list without items. -/
def asTexts (document node : Yaml) : Option (List String) :=
  match resolve document node with
  | list items => items.mapM (asText document)
  | node => if node.isAbsent then some [] else none

/-- A natural number of 64 bits, without quotes or in a literal block that is tagged as a whole number. -/
def asNatural (document node : Yaml) : Option Nat :=
  match resolve document node with
  | scalar text style tag =>
    if style = .plain || (style = .literal && tag = some "tag:yaml.org,2002:int") then
      (natural? text.toList).filter (· < UInt64.size)
    else none
  | _ => none

/-- A text, or nothing. A plain scalar that is tagged as nothing has to be one of the words for it, and one with
another tag is a text. -/
def asOptionalText (document node : Yaml) : Option (Option String) :=
  match resolve document node with
  | scalar text .plain (some tag) =>
    if tag ≠ "tag:yaml.org,2002:null" then some (some text) else if isNullWord text then some none else none
  | scalar text .plain none => some (if text.isEmpty || isNullWord text then none else some text)
  | scalar text _ _ => some (some text)
  | _ => none

/-- The entry with a name, read in some way, or a default; a name must not occur twice. -/
def entry {α : Type} (entries : List (String × Yaml)) (name : String) (absent : α) (read : Yaml → Option α) :
    Option α :=
  match entries.filter (·.1 = name) with
  | [] => some absent
  | [(_, value)] => read value
  | _ => none

end Yaml

/-- Reads the names of the rule files. -/
def RuleSources.ofYaml (document node : Yaml) : Option RuleSources := do
  let entries ← document.asEntries node
  return {
    propagation := ← Yaml.entry entries "propagation" none document.asOptionalText
    sourceCorrelations := ← Yaml.entry entries "source_correlations" none document.asOptionalText
    sinks := ← Yaml.entry entries "sinks" none document.asOptionalText }

namespace Config

/-- Reads settings without judging them. -/
def ofYaml (document : Yaml) : Option Config := do
  let default : Config := {}
  let entries ← document.asEntries document
  return {
    fieldSearchDepth := ← Yaml.entry entries "field_search_depth" default.fieldSearchDepth document.asNatural
    maxWorklistIterations :=
      ← Yaml.entry entries "max_worklist_iterations" default.maxWorklistIterations document.asNatural
    unidirectionalMethods :=
      ← Yaml.entry entries "unidirectional_methods" default.unidirectionalMethods document.asTexts
    stringBuilderClasses :=
      ← Yaml.entry entries "string_builder_classes" default.stringBuilderClasses document.asTexts
    rules := ← Yaml.entry entries "rules" default.rules (RuleSources.ofYaml document) }

/-- Reads and judges the settings in a text. -/
def ofText (text : String) : Except ConfigError Config :=
  match (Yaml.parse text).bind ofYaml with
  | none => .error .malformed
  | some c => c.validate.map fun _ => c

/-- A list of texts under its name. -/
def writeTexts (name : String) : List String → String
  | [] => name ++ ": []\n"
  | items => items.foldl (fun out s => out ++ "- " ++ Yaml.writeText 2 s) (name ++ ":\n")

/-- A text or nothing, under its name. -/
def writeOptional (name : String) (value : Option String) : String :=
  "  " ++ name ++ ": " ++ (value.map (Yaml.writeText 4)).getD "null\n"

/-- The settings as a document. -/
def toText (c : Config) : String :=
  "field_search_depth: " ++ Nat.repr c.fieldSearchDepth ++ "\n" ++
    "max_worklist_iterations: " ++ Nat.repr c.maxWorklistIterations ++ "\n" ++
    writeTexts "unidirectional_methods" c.unidirectionalMethods ++
    writeTexts "string_builder_classes" c.stringBuilderClasses ++
    "rules:\n" ++ writeOptional "propagation" c.rules.propagation ++
    writeOptional "source_correlations" c.rules.sourceCorrelations ++ writeOptional "sinks" c.rules.sinks

end Config

end SinkFlow
