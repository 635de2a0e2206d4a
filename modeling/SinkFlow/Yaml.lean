import SinkFlow.Decimal.Range

/-! YAML documents, and what a scalar without quotes is taken for. -/

namespace SinkFlow

namespace Yaml

/-- How a scalar is written: bare, in quotes, or as a block whose lines are kept or folded. -/
inductive Style where
  | plain
  | quoted
  | literal
  | folded
  deriving DecidableEq, Inhabited

end Yaml

/-- A node of a document. An absent node is an empty plain scalar. Anchors have numbers, by which other places of the
document refer to them. -/
inductive Yaml where
  | scalar (text : String) (style : Yaml.Style) (tag : Option String)
  | list (items : List Yaml)
  | map (entries : List (Yaml × Yaml))
  | anchored (anchor : Nat) (node : Yaml)
  | reference (anchor : Nat)
  deriving Inhabited

namespace Yaml

/-- The node that is left out. -/
def absent : Yaml := scalar "" .plain none

mutual

/-- The last node with an anchor, in the order in which the nodes start. -/
def lastAnchored (anchor : Nat) : Yaml → Option Yaml
  | scalar _ _ _ => none
  | list items => lastInItems anchor items
  | map entries => lastInEntries anchor entries
  | anchored a node => (lastAnchored anchor node).or (if a = anchor then some node else none)
  | reference _ => none

/-- The last node with an anchor among items. -/
def lastInItems (anchor : Nat) : List Yaml → Option Yaml
  | [] => none
  | item :: rest => (lastInItems anchor rest).or (lastAnchored anchor item)

/-- The last node with an anchor among keys and values. -/
def lastInEntries (anchor : Nat) : List (Yaml × Yaml) → Option Yaml
  | [] => none
  | (key, value) :: rest =>
    (lastInEntries anchor rest).or ((lastAnchored anchor value).or (lastAnchored anchor key))

end

/-- What a node of a document stands for: an anchor is left off, and a reference is the node that it names. -/
def resolve (document : Yaml) : Yaml → Yaml
  | anchored _ node => node
  | reference anchor => (lastAnchored anchor document).getD absent
  | node => node

/-- The plain scalars that stand for nothing. -/
def isNullWord (s : String) : Bool := s == "null" || s == "Null" || s == "NULL" || s == "~"

/-- The plain scalars that stand for truth values. -/
def isBoolWord (s : String) : Bool :=
  s == "true" || s == "True" || s == "TRUE" || s == "false" || s == "False" || s == "FALSE"

/-- A number without a sign: hexadecimal, octal or binary with its mark, else decimal without a zero in
front. -/
def unsigned? : List Char → Option Nat
  | '0' :: 'x' :: cs => Text.number? 16 cs
  | '0' :: 'o' :: cs => Text.number? 8 cs
  | '0' :: 'b' :: cs => Text.number? 2 cs
  | ['0'] => some 0
  | '0' :: _ => none
  | cs => Text.number? 10 cs

/-- A natural number with an optional plus sign. -/
def natural? : List Char → Option Nat
  | '+' :: cs => unsigned? cs
  | cs => unsigned? cs

/-- A whole number of 128 bits, signed if it has a minus sign. -/
def isWhole : List Char → Bool
  | '-' :: cs => (unsigned? cs).any (· ≤ Nat.pow 2 127)
  | cs => (natural? cs).any (· < Nat.pow 2 128)

/-- The exponent at the end of a decimal, if there is one. -/
def exponent? : List Char → Option Int
  | [] => some 0
  | e :: cs =>
    if e = 'e' ∨ e = 'E' then
      match cs with
      | '-' :: ds => (Text.number? 10 ds).map fun n => -Int.ofNat n
      | '+' :: ds => (Text.number? 10 ds).map Int.ofNat
      | ds => (Text.number? 10 ds).map Int.ofNat
    else none

/-- A decimal that a double can hold, with an optional fraction and exponent, and at least one digit. -/
def isDecimal (cs : List Char) : Bool :=
  let whole := cs.takeWhile Char.isDigit
  let (fraction, rest) :=
    match cs.dropWhile Char.isDigit with
    | '.' :: more => (more.takeWhile Char.isDigit, more.dropWhile Char.isDigit)
    | rest => ([], rest)
  match Text.number? 10 (whole ++ fraction), exponent? rest with
  | some m, some e => !Decimal.isInfinite m (e - Int.ofNat fraction.length)
  | _, _ => false

/-- Whether decimal digits start with a zero that no number starts with. -/
def isPadded : List Char → Bool
  | '0' :: c :: cs => (c :: cs).all Char.isDigit
  | _ => false

/-- What follows the sign of a number, if it has one. -/
def unsignedPart : List Char → List Char
  | '+' :: cs => cs
  | '-' :: cs => cs
  | cs => cs

/-- Whether a plain scalar would be read as a number: a whole one, a decimal, or one of the words for infinities and
for no number. -/
def isNumber (cs : List Char) : Bool :=
  let body := unsignedPart cs
  isWhole cs || (!isPadded body && isDecimal body) ||
    String.ofList body ∈ [".inf", ".Inf", ".INF"] || String.ofList cs ∈ [".nan", ".NaN", ".NAN"]

end Yaml

end SinkFlow
