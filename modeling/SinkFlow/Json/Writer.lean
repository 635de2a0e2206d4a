import SinkFlow.Json

/-! Writing JSON text: on one line, or laid out with two blanks per level. -/

namespace SinkFlow.Json

/-- A lower-case hexadecimal digit. -/
def hexDigit (n : Nat) : Char := if n < 10 then Char.ofNat (48 + n) else Char.ofNat (87 + n)

/-- A character inside quotes. Quotes, backslashes and control characters are escaped, nothing else. -/
def escape (c : Char) : List Char :=
  if c = '"' then ['\\', '"']
  else if c = '\\' then ['\\', '\\']
  else if c = '\n' then ['\\', 'n']
  else if c = '\r' then ['\\', 'r']
  else if c = '\t' then ['\\', 't']
  else if c = '\x08' then ['\\', 'b']
  else if c = '\x0c' then ['\\', 'f']
  else if c.toNat < 0x20 then ['\\', 'u', '0', '0', hexDigit (c.toNat / 16), hexDigit (c.toNat % 16)]
  else [c]

/-- A text in quotes. -/
def quoted (s : String) : String := "\"" ++ String.ofList (s.toList.flatMap escape) ++ "\""

/-- The parts one after another, with a separator between them. -/
def joined (separator : String) : List String → String
  | [] => ""
  | [s] => s
  | s :: t :: rest => s ++ separator ++ joined separator (t :: rest)

mutual

/-- A value on one line, without blanks. -/
def compact : Json → String
  | null => "null"
  | unreadable => "null"
  | bool true => "true"
  | bool false => "false"
  | int i => Int.repr i
  | real lexeme => lexeme
  | str s => quoted s
  | arr items => "[" ++ joined "," (compactItems items) ++ "]"
  | obj members => "\x7b" ++ joined "," (compactMembers members) ++ "\x7d"

/-- The items of a list, each on its own. -/
def compactItems : List Json → List String
  | [] => []
  | j :: rest => compact j :: compactItems rest

/-- The members of a record, each with its name. -/
def compactMembers : List (String × Json) → List String
  | [] => []
  | (name, j) :: rest => (quoted name ++ ":" ++ compact j) :: compactMembers rest

end

/-- Two blanks for every level. -/
def margin (level : Nat) : String := String.ofList (List.replicate (2 * level) ' ')

/-- A bracketed block with one part per line; an empty one stays on its line. -/
def block (opening closing : String) (level : Nat) : List String → String
  | [] => opening ++ closing
  | parts =>
    opening ++ "\n" ++ joined ",\n" (parts.map (margin (level + 1) ++ ·)) ++ "\n" ++ margin level ++ closing

mutual

/-- A value over several lines; the first one starts at the current place. -/
def pretty (level : Nat) : Json → String
  | null => "null"
  | unreadable => "null"
  | bool true => "true"
  | bool false => "false"
  | int i => Int.repr i
  | real lexeme => lexeme
  | str s => quoted s
  | arr items => block "[" "]" level (prettyItems (level + 1) items)
  | obj members => block "\x7b" "\x7d" level (prettyMembers (level + 1) members)

/-- The items of a list, laid out one level deeper. -/
def prettyItems (level : Nat) : List Json → List String
  | [] => []
  | j :: rest => pretty level j :: prettyItems level rest

/-- The members of a record, laid out one level deeper. -/
def prettyMembers (level : Nat) : List (String × Json) → List String
  | [] => []
  | (name, j) :: rest => (quoted name ++ ": " ++ pretty level j) :: prettyMembers level rest

end

end SinkFlow.Json
