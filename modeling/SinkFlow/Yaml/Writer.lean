import SinkFlow.Yaml
import SinkFlow.Yaml.Spot

/-!
Writing YAML scalars: plain where the text reads back as itself, with line feeds as a block of lines, else in quotes.
-/

namespace SinkFlow.Yaml

/-- Whether a plain scalar would be taken for something else than a text, or for a number with zeros in front. -/
def isAmbiguous (s : String) : Bool :=
  s.isEmpty || isNullWord s || isBoolWord s || isNumber s.toList || isPadded (unsignedPart s.toList)

/-- The characters that are written without an escape where line ends are. -/
def isPrintable (c : Char) : Bool :=
  let n := c.toNat
  isBreak c || (0x20 ≤ n && n ≤ 0x7E) || (0xA0 ≤ n && n ≤ 0xFFFD && n != 0xFEFF) || 0x10000 ≤ n

/-- The characters that a plain scalar does not start with. -/
def isIndicator (c : Char) : Bool :=
  c = '#' || c = ',' || c = '[' || c = ']' || c = '\x7b' || c = '\x7d' || c = '&' || c = '*' || c = '!' ||
    c = '|' || c = '>' || c = '\'' || c = '"' || c = '%' || c = '@' || c.toNat == 0x60

/-- Whether a character other than the first one is taken for a mark: a colon before a blank or at the end, or
a hash sign after a blank. -/
def hasMark (afterBlank : Bool) : List Char → Bool
  | [] => false
  | c :: rest => (c = ':' && rest.head?.all (· = ' ')) || (c = '#' && afterBlank) || hasMark (c = ' ') rest

/-- Whether a text stands for itself in a block without quotes. -/
def isPlain (cs : List Char) : Bool :=
  match cs with
  | [] => true
  | c :: rest =>
    !cs.any isBreak && !("---".toList.isPrefixOf cs || "...".toList.isPrefixOf cs) && !isIndicator c &&
      !((c = '?' || c = ':' || c = '-') && rest.head?.all (· = ' ')) && !hasMark (c = ' ') rest && c != ' ' &&
      cs.getLast? != some ' '

/-- An upper-case hexadecimal digit. -/
def hexDigit (n : Nat) : Char := if n < 10 then Char.ofNat (48 + n) else Char.ofNat (55 + n)

/-- The hexadecimal digits of a number, padded to a width. -/
def hexPadded : Nat → Nat → List Char
  | 0, _ => []
  | width + 1, n => hexPadded width (n / 16) ++ [hexDigit (n % 16)]

/-- A character in double quotes. -/
def escaped (c : Char) : List Char :=
  let n := c.toNat
  if c = '"' then ['\\', '"']
  else if c = '\\' then ['\\', '\\']
  else if isPrintable c && !isBreak c then [c]
  else if n = 0 then ['\\', '0']
  else if n = 7 then ['\\', 'a']
  else if n = 8 then ['\\', 'b']
  else if n = 9 then ['\\', 't']
  else if n = 10 then ['\\', 'n']
  else if n = 11 then ['\\', 'v']
  else if n = 12 then ['\\', 'f']
  else if n = 13 then ['\\', 'r']
  else if n = 0x1B then ['\\', 'e']
  else if n = 0x85 then ['\\', 'N']
  else if n = 0x2028 then ['\\', 'L']
  else if n = 0x2029 then ['\\', 'P']
  else if n ≤ 0xFF then '\\' :: 'x' :: hexPadded 2 n
  else if n ≤ 0xFFFF then '\\' :: 'u' :: hexPadded 4 n
  else '\\' :: 'U' :: hexPadded 8 n

/-- Whether a character that passes a test stands right before one that passes another. -/
def hasPair (p q : Char → Bool) : List Char → Bool
  | c :: d :: rest => (p c && q d) || hasPair p q (d :: rest)
  | _ => false

/-- A text in double quotes. -/
def writeDouble (cs : List Char) : List Char := '"' :: cs.flatMap escaped ++ ['"']

/-- Sets an indentation in front of what follows line ends. -/
def indented (margin : List Char) (afterBreak : Bool) (write : Char → List Char) : List Char → List Char
  | [] => []
  | c :: rest =>
    (if afterBreak && !isBreak c then margin else []) ++ write c ++ indented margin (isBreak c) write rest

/-- A text in single quotes; what follows a line end is indented, and so is the last quote. -/
def writeSingle (margin cs : List Char) : List Char :=
  let body := indented margin false (fun c => if c = '\'' then ['\'', '\''] else [c]) cs
  '\'' :: body ++ (if cs.getLast?.any isBreak then margin else []) ++ ['\'']

/-- A text as a block of lines, up to its last line end if it has one. The head says how far the block is indented if
that cannot be seen on the first line, and what becomes of the last line ends. -/
def writeLines (margin cs : List Char) : List Char :=
  let hint := if cs.head?.any fun c => c = ' ' || isBreak c then ['2'] else []
  let chomp :=
    if !cs.getLast?.any isBreak then ['-']
    else if cs.dropLast.getLast?.all isBreak then ['+']
    else []
  '|' :: hint ++ chomp ++ '\n' :: indented margin true (fun c => [c]) cs

/-- A text as a scalar in a block, to the end of its last line. The lines after the first one are indented. A block of
lines must not have blanks at the end of a line. -/
def writeText (indent : Nat) (s : String) : String :=
  let cs := s.toList
  let margin := List.replicate indent ' '
  let isSpace := fun c : Char => c = ' '
  if '\n' ∈ cs then
    if cs.all isPrintable && cs.getLast? != some ' ' && !hasPair isSpace isBreak cs then
      String.ofList (writeLines margin cs) ++ if cs.getLast?.any isBreak then "" else "\n"
    else String.ofList (writeDouble cs) ++ "\n"
  else if !isAmbiguous s && cs.all isPrintable && isPlain cs then s ++ "\n"
  else if cs.all isPrintable && !hasPair isSpace isBreak cs && !hasPair isBreak isSpace cs then
    String.ofList (writeSingle margin cs) ++ "\n"
  else String.ofList (writeDouble cs) ++ "\n"

end SinkFlow.Yaml
