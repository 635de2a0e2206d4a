import SinkFlow.Text.Cut

/-! Names of fields and methods of the analysed program. -/

namespace SinkFlow

/-- A field: its declaring class and its name. Views of one field are matched by this key alone. -/
structure FieldSignature where
  className : String
  name : String
  deriving DecidableEq, Inhabited

namespace FieldSignature

/-- Reads `pkg.Class.field`; neither side of the last dot may be empty. -/
def parse (qualified : String) : Option FieldSignature :=
  match Text.cutLast '.' qualified.toList with
  | some (c :: cs, n :: ns) => some ⟨String.ofList (c :: cs), String.ofList (n :: ns)⟩
  | _ => none

/-- The field as `pkg.Class.field`. -/
def render (f : FieldSignature) : String := f.className ++ "." ++ f.name

/-- Fields are ordered by class, then by name. -/
def le (a b : FieldSignature) : Bool :=
  decide (a.className < b.className) || (a.className == b.className && decide (a.name ≤ b.name))

end FieldSignature

/-- A method in the form `pkg.Class.method(descriptor)ret`; rules are looked up by the whole text. -/
structure MethodSignature where
  text : String
  deriving DecidableEq, Inhabited

namespace MethodSignature

/-- The part before the descriptor. -/
def qualified (m : MethodSignature) : List Char := Text.before '(' m.text.toList

/-- The class part of the qualified name, empty if there is no dot. -/
def className (m : MethodSignature) : String :=
  match Text.cutLast '.' m.qualified with
  | some (c, _) => String.ofList c
  | none => ""

/-- The last part of the qualified name. -/
def methodName (m : MethodSignature) : String :=
  match Text.cutLast '.' m.qualified with
  | some (_, n) => String.ofList n
  | none => String.ofList m.qualified

/-- Whether the method is a constructor. -/
def isConstructor (m : MethodSignature) : Bool := m.methodName == "<init>"

end MethodSignature

end SinkFlow
