import SinkFlow.Text.Cut

/-! Blanks: the characters with the White_Space property, and what trimming and cutting at them gives. -/

namespace SinkFlow.Text

/-- Whether a character has the White_Space property. -/
def isBlank (c : Char) : Bool :=
  let n := c.toNat
  (0x9 ≤ n && n ≤ 0xD) || n == 0x20 || n == 0x85 || n == 0xA0 || n == 0x1680 ||
    (0x2000 ≤ n && n ≤ 0x200A) || n == 0x2028 || n == 0x2029 || n == 0x202F || n == 0x205F ||
    n == 0x3000

/-- Drops the blanks at both ends. -/
def trim (cs : List Char) : List Char := dropEndWhile isBlank (cs.dropWhile isBlank)

/-- Adds a character in front of the words of what follows it. -/
def consWord (c : Char) (rest : List Char) (words : List (List Char)) : List (List Char) :=
  if isBlank c then words
  else
    match rest, words with
    | d :: _, w :: ws => if isBlank d then [c] :: w :: ws else (c :: w) :: ws
    | _, ws => [c] :: ws

/-- The maximal runs of characters that are not blank, in order. -/
def words : List Char → List (List Char)
  | [] => []
  | c :: rest => consWord c rest (words rest)

/-- The pieces between line feeds; a text without a line feed is one piece. -/
def lines (cs : List Char) : List (List Char) := split '\n' cs

end SinkFlow.Text
