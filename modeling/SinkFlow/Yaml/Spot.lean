/-! Characters with their places in a text, and the classes of characters that YAML tells apart. -/

namespace SinkFlow.Yaml

/-- A character, the line and the column that it stands in, and how many bytes of UTF-8 come before it. -/
structure Spot where
  char : Char
  line : Nat
  column : Nat
  index : Nat
  deriving Inhabited

/-- The byte order mark. -/
def byteOrderMark : Char := Char.ofNat 0xFEFF

/-- The characters that a document may have. -/
def isAllowed (c : Char) : Bool :=
  let n := c.toNat
  n == 0x9 || n == 0xA || n == 0xD || (0x20 ≤ n && n ≤ 0x7E) || n == 0x85 || (0xA0 ≤ n && n ≤ 0xFFFD) ||
    0x10000 ≤ n

/-- Blanks and tabs. -/
def isBlank (c : Char) : Bool := c = ' ' || c = '\t'

/-- The line ends that are kept apart: a line feed, which stands for all common ones, and the separators of lines and
of paragraphs. -/
def isBreak (c : Char) : Bool := c = '\n' || c.toNat == 0x2028 || c.toNat == 0x2029

/-- The marks of flow lists and mappings. -/
def isFlowMark (c : Char) : Bool := c = ',' || c = '[' || c = ']' || c = '\x7b' || c = '\x7d'

/-- The characters of names. -/
def isWordChar (c : Char) : Bool := c.isAlphanum || c = '_' || c = '-'

/-- Finds the places of characters. Columns count characters, and indices count bytes. A carriage return, with or
without a line feed after it, and the next-line character become line feeds. -/
def spots (line column index : Nat) : List Char → List Spot
  | [] => []
  | '\r' :: '\n' :: rest => ⟨'\n', line, column, index⟩ :: spots (line + 1) 0 (index + 2) rest
  | c :: rest =>
    let next := index + c.utf8Size
    let c := if c = '\r' || c.toNat == 0x85 then '\n' else c
    ⟨c, line, column, index⟩ :: if isBreak c then spots (line + 1) 0 next rest else spots line (column + 1) next rest

/-- Whether the next character passes a test. -/
def nextIs (p : Char → Bool) (cs : List Spot) : Bool := (cs.head?.map Spot.char).any p

/-- Whether a blank, a line end or the end of the text comes next. -/
def atGap (cs : List Spot) : Bool := (cs.head?.map Spot.char).all fun c => isBlank c || isBreak c

/-- Whether a line end or the end of the text comes next. -/
def atLineEnd (cs : List Spot) : Bool := (cs.head?.map Spot.char).all isBreak

/-- Splits off the characters that pass a test. -/
def spanChars (p : Char → Bool) (cs : List Spot) : List Char × List Spot :=
  ((cs.takeWhile fun s => p s.char).map Spot.char, cs.dropWhile fun s => p s.char)

/-- Whether a line starts here with three equal characters and a gap after them. -/
def startsWithMark (c : Char) (cs : List Spot) : Bool :=
  (cs.take 3).map Spot.char = [c, c, c] && (cs.head?.map Spot.column).any (· = 0) && atGap (cs.drop 3)

/-- Whether a mark between documents stands here. -/
def atDocumentMark (cs : List Spot) : Bool := startsWithMark '-' cs || startsWithMark '.' cs

/-- Goes on to the next line, over blanks and a comment; anything else is refused. -/
def endLine (cs : List Spot) : Option (List Spot) :=
  let cs := cs.dropWhile fun s => isBlank s.char
  let cs := if nextIs (· = '#') cs then cs.dropWhile fun s => !isBreak s.char else cs
  if atLineEnd cs then some cs.tail else none

end SinkFlow.Yaml
