import SinkFlow.Decimal.Range
import SinkFlow.Json

/-!
Reading JSON text. Only the standard's grammar is accepted, and nothing but blanks may follow. A text with half of a
surrogate pair, a number that no double holds, a list or record inside too many others, and a record with an
unreadable name are well formed, but unreadable.
-/

namespace SinkFlow.Json

/-- The blanks of the format. -/
def isSpace (c : Char) : Bool := c = ' ' || c = '\t' || c = '\n' || c = '\r'

/-- Drops the blanks in front. -/
def skipSpace (cs : List Char) : List Char := cs.dropWhile isSpace

/-- Four hexadecimal digits. -/
def hex4? : List Char → Option (Nat × List Char)
  | a :: b :: c :: d :: rest => (Text.number? 16 [a, b, c, d]).map (·, rest)
  | _ => none

/-- What an escape with four digits stands for. The half of a surrogate pair stands for nothing unless the other half
follows right after it. -/
def unicodeEscape (cs : List Char) : Option (Option Char × List Char) := do
  let (n, rest) ← hex4? cs
  if 0xD800 ≤ n ∧ n < 0xE000 then
    let low :=
      match rest with
      | '\\' :: 'u' :: more => (hex4? more).filter fun (low, _) => n < 0xDC00 ∧ 0xDC00 ≤ low ∧ low < 0xE000
      | _ => none
    match low with
    | some (low, rest) => some (some (Char.ofNat (0x10000 + (n - 0xD800) * 0x400 + (low - 0xDC00))), rest)
    | none => some (none, rest)
  else some (some (Char.ofNat n), rest)

/-- The character of an escape with one letter. -/
def letterEscape (c : Char) : Option Char :=
  if c = '"' ∨ c = '\\' ∨ c = '/' then some c
  else if c = 'b' then some '\x08'
  else if c = 'f' then some '\x0c'
  else if c = 'n' then some '\n'
  else if c = 'r' then some '\r'
  else if c = 't' then some '\t'
  else none

/-- The text up to the closing quote, unless it is unreadable, and what follows the quote. The last character read so
far stands first in `read`. -/
def stringBody : Nat → Option (List Char) → List Char → Option (Option String × List Char)
  | 0, _, _ => none
  | _ + 1, _, [] => none
  | fuel + 1, read, c :: rest =>
    if c = '"' then some (read.map fun cs => String.ofList cs.reverse, rest)
    else if c = '\\' then
      match rest with
      | 'u' :: more => do
        let (ch, rest) ← unicodeEscape more
        stringBody fuel (read.bind fun cs => ch.map (· :: cs)) rest
      | e :: more => do
        let ch ← letterEscape e
        stringBody fuel (read.map (ch :: ·)) more
      | [] => none
    else if c.toNat < 0x20 then none
    else stringBody fuel (read.map (c :: ·)) rest

/-- The digits in front, of which there has to be one. -/
def digits? (cs : List Char) : Option (List Char × List Char) :=
  match cs.takeWhile Char.isDigit with
  | [] => none
  | ds => some (ds, cs.dropWhile Char.isDigit)

/-- The whole part of a number: no zero in front of another digit. -/
def wholePart (cs : List Char) : Option (List Char × List Char) := do
  let (ds, rest) ← digits? cs
  match ds with
  | '0' :: _ :: _ => none
  | _ => some (ds, rest)

/-- The fraction of a number, if there is one. -/
def fractionPart : List Char → Option (List Char × List Char)
  | '.' :: rest => do
    let (ds, rest) ← digits? rest
    return ('.' :: ds, rest)
  | cs => some ([], cs)

/-- The exponent of a number, if there is one. -/
def exponentPart : List Char → Option (List Char × List Char)
  | c :: rest =>
    if c = 'e' ∨ c = 'E' then
      match rest with
      | s :: more =>
        if s = '+' ∨ s = '-' then do
          let (ds, rest) ← digits? more
          return (c :: s :: ds, rest)
        else do
          let (ds, rest) ← digits? rest
          return (c :: ds, rest)
      | [] => none
    else some ([], c :: rest)
  | [] => some ([], [])

/-- The number of an exponent. -/
def exponentValue : List Char → Int
  | _ :: '-' :: ds => -Int.ofNat ((Text.number? 10 ds).getD 0)
  | _ :: '+' :: ds => Int.ofNat ((Text.number? 10 ds).getD 0)
  | _ :: ds => Int.ofNat ((Text.number? 10 ds).getD 0)
  | [] => 0

/-- A number without its sign. -/
def unsigned (negative : Bool) (cs : List Char) : Option (Json × List Char) := do
  let (whole, rest) ← wholePart cs
  let (fraction, rest) ← fractionPart rest
  let (exponent, rest) ← exponentPart rest
  let n ← Text.number? 10 whole
  if Decimal.overflows whole fraction.tail (exponentValue exponent) then return (unreadable, rest)
  else if fraction.isEmpty ∧ exponent.isEmpty ∧ !(negative ∧ n = 0) then
    return (int (if negative then -(Int.ofNat n) else Int.ofNat n), rest)
  else
    let sign := if negative then ['-'] else []
    return (real (String.ofList (sign ++ whole ++ fraction ++ exponent)), rest)

/-- What follows a word, if the text starts with it. -/
def afterWord (word : List Char) (cs : List Char) : Option (List Char) :=
  if word.isPrefixOf cs then some (cs.drop word.length) else none

mutual

/-- Reads one value. A list or record is unreadable if `depth` of them were allowed and all are open. -/
def value : Nat → Nat → List Char → Option (Json × List Char)
  | 0, _, _ => none
  | fuel + 1, depth, cs =>
    match skipSpace cs with
    | [] => none
    | c :: rest =>
      if c = '"' then do
        let (s, rest) ← stringBody (rest.length + 1) (some []) rest
        return ((s.map str).getD unreadable, rest)
      else if c = '[' then do
        let (items, rest) ←
          match skipSpace rest with
          | ']' :: rest => some ([], rest)
          | rest => elements fuel (depth - 1) rest
        return (if depth = 0 then unreadable else arr items, rest)
      else if c = '\x7b' then do
        let (items, rest) ←
          match skipSpace rest with
          | '\x7d' :: rest => some (some [], rest)
          | rest => members fuel (depth - 1) rest
        return (if depth = 0 then unreadable else (items.map obj).getD unreadable, rest)
      else if c = '-' then unsigned true rest
      else if c.isDigit then unsigned false (c :: rest)
      else if c = 'n' then do return (null, ← afterWord "ull".toList rest)
      else if c = 't' then do return (bool true, ← afterWord "rue".toList rest)
      else if c = 'f' then do return (bool false, ← afterWord "alse".toList rest)
      else none

/-- Reads the items of a list and its closing bracket. -/
def elements : Nat → Nat → List Char → Option (List Json × List Char)
  | 0, _, _ => none
  | fuel + 1, depth, cs => do
    let (item, rest) ← value fuel depth cs
    match skipSpace rest with
    | ',' :: rest => do
      let (items, rest) ← elements fuel depth rest
      return (item :: items, rest)
    | ']' :: rest => some ([item], rest)
    | _ => none

/-- Reads the members of a record, unless one of their names is unreadable, and its closing brace. -/
def members : Nat → Nat → List Char → Option (Option (List (String × Json)) × List Char)
  | 0, _, _ => none
  | fuel + 1, depth, cs =>
    match skipSpace cs with
    | '"' :: rest => do
      let (name, rest) ← stringBody (rest.length + 1) (some []) rest
      match skipSpace rest with
      | ':' :: rest => do
        let (v, rest) ← value fuel depth rest
        match skipSpace rest with
        | ',' :: rest => do
          let (items, rest) ← members fuel depth rest
          return (name.bind fun name => items.map ((name, v) :: ·), rest)
        | '\x7d' :: rest => some (name.map fun name => [(name, v)], rest)
        | _ => none
      | _ => none
    | _ => none

end

/-- How many lists and records may be open at once. -/
def maxDepth : Nat := 127

/-- Reads a whole text as one value. -/
def parse (text : String) : Option Json :=
  let cs := text.toList
  match value (cs.length + 1) maxDepth cs with
  | some (j, rest) => if (skipSpace rest).isEmpty then some j else none
  | none => none

end SinkFlow.Json
