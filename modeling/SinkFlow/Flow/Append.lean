import SinkFlow.Path
import SinkFlow.Text.Pattern

/-!
Append chains: what was appended to one string builder, in order. The name in front of an appended value,
as in `user=`, says what the value is.
-/

namespace SinkFlow

/-- One appended thing: a known text, or a node with the statement that appended it. -/
inductive AppendElement where
  | literal (text : String)
  | operand (node : NodeId) (statement : StatementRef)
  deriving DecidableEq, Inhabited

/-- What was appended to one builder, oldest first. -/
structure AppendChain where
  elements : List AppendElement := []
  deriving DecidableEq, Inhabited

/-- A name found in front of an appended node. -/
structure AppendName where
  node : NodeId
  name : String
  statement : StatementRef
  deriving DecidableEq, Inhabited

namespace AppendChain

/-- Appends to the chain. -/
def push (c : AppendChain) (e : AppendElement) : AppendChain := ⟨c.elements ++ [e]⟩

/-- What stands for a node in the text of a chain. -/
def placeholder (node : NodeId) : String := "__APPEND_VAR_" ++ Nat.repr node ++ "__"

/-- The text of an element, with a placeholder for a node. -/
def renderElement : AppendElement → String
  | .literal t => t
  | .operand n _ => placeholder n

/-- The text of a chain, with placeholders for nodes. -/
def render (c : AppendChain) : String := c.elements.foldl (fun out e => out ++ renderElement e) ""

/-- The statement that first appended a node. -/
def operandStatement? (c : AppendChain) (node : NodeId) : Option StatementRef :=
  c.elements.findSome? fun
    | .operand n s => if n = node then some s else none
    | .literal _ => none

/-- The characters of a name: ASCII letters, digits, underscore, dot and hyphen. -/
def isNameChar (c : Char) : Bool := c.isAlphanum || c = '_' || c = '.' || c = '-'

/-- A name, which is kept, then an equals sign, and then the end of the text. -/
def namePattern : Pattern := .seq (.group (.many isNameChar)) (.seq (.one (· = '=')) .finish)

/-- What the pattern keeps of a text. -/
def keptName? (run : List Char) : Option (List Char) := (namePattern.search run).bind (·.kept)

/-- The names in front of the nodes of a chain, where `run` is the text since the last node. -/
def namesFrom (run : List Char) : List AppendElement → List AppendName
  | [] => []
  | .literal t :: rest => namesFrom (run ++ t.toList) rest
  | .operand node statement :: rest =>
    match keptName? run with
    | some name => ⟨node, String.ofList name, statement⟩ :: namesFrom [] rest
    | none => namesFrom [] rest

/-- The names in front of the nodes of a chain. -/
def names (c : AppendChain) : List AppendName := namesFrom [] c.elements

end AppendChain

end SinkFlow
