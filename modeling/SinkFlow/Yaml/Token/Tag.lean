import SinkFlow.Text.Digits
import SinkFlow.Yaml.Spot
import SinkFlow.Yaml.Token

/-! Reading names of anchors, tags, and the directives that may stand before a document. -/

namespace SinkFlow.Yaml

/-- Reads the name of an anchor, which has to end before a gap or one of some marks. -/
def anchorName (cs : List Spot) : Option (String × List Spot) :=
  let (name, rest) := spanChars isWordChar cs
  let ends := atGap rest || nextIs (fun c => c ∈ ['?', ':', ',', ']', '\x7d', '%', '@'] || c.toNat == 0x60) rest
  if !name.isEmpty && ends then some (String.ofList name, rest) else none

/-- The characters of tags; the last three only inside angle brackets. -/
def isTagChar (bracketed : Bool) (c : Char) : Bool :=
  isWordChar c || c ∈ [';', '/', '?', ':', '@', '&', '=', '+', '$', '.', '%', '!', '~', '*', '\'', '(', ')'] ||
    (bracketed && (c = ',' || c = '[' || c = ']'))

/-- How many octets a character has whose first octet is given. -/
def octetWidth? (n : Nat) : Option Nat :=
  if n < 0x80 then some 1
  else if n / 0x20 = 6 then some 2
  else if n / 0x10 = 14 then some 3
  else if n / 8 = 30 then some 4
  else none

/-- The characters of a tag, each escaped octet as a character of its own. `due` octets have to follow that belong to
the same character as the last one. -/
def tagChars : Nat → Nat → List Char → Option (List Char)
  | 0, _, _ => none
  | _ + 1, due, [] => if due = 0 then some [] else none
  | fuel + 1, due, c :: rest =>
    if c = '%' then
      match rest with
      | a :: b :: more => do
        let n ← Text.number? 16 [a, b]
        let due ← if due = 0 then (octetWidth? n).map (· - 1) else if n / 0x40 = 2 then some (due - 1) else none
        return Char.ofNat n :: (← tagChars fuel due more)
      | _ => none
    else if due = 0 then do return c :: (← tagChars fuel 0 rest)
    else none

/-- Reads the characters of a tag. -/
def tagText (bracketed : Bool) (cs : List Spot) : Option (List Char × List Spot) := do
  let (text, rest) := spanChars (isTagChar bracketed) cs
  return (← tagChars (text.length + 1) 0 text, rest)

/-- Reads what may be the handle of a tag: an exclamation mark, and a word with another one after it. -/
def tagHandle (cs : List Spot) : List Char × List Spot :=
  let (word, rest) := spanChars isWordChar cs.tail
  if nextIs (· = '!') rest then ('!' :: word ++ ['!'], rest.tail) else ('!' :: word, rest)

/-- Reads a tag: in angle brackets, with a handle, or an exclamation mark with a suffix. An exclamation mark alone is
a suffix without a handle. -/
def tagToken (flow : Bool) (cs : List Spot) : Option (Token × List Spot) := do
  let (token, rest) ←
    if nextIs (· = '<') cs.tail then do
      let (text, rest) ← tagText true (cs.drop 2)
      if !text.isEmpty && nextIs (· = '>') rest then some (Token.tag "" text, rest.tail) else none
    else
      let (handle, rest) := tagHandle cs
      if 1 < handle.length && handle.getLast? = some '!' then do
        let (suffix, rest) ← tagText false rest
        if suffix.isEmpty then none else some (Token.tag (String.ofList handle) suffix, rest)
      else do
        let (suffix, rest) ← tagText false rest
        let suffix := handle.tail ++ suffix
        some (if suffix.isEmpty then Token.tag "" ['!'] else Token.tag "!" suffix, rest)
  if atGap rest || (flow && nextIs (· = ',') rest) then some (token, rest) else none

/-- Reads a number of at most nine digits. -/
def versionNumber (cs : List Spot) : Option (Nat × List Spot) := do
  let (digits, rest) := spanChars Char.isDigit cs
  if digits.length ≤ 9 then return (← Text.number? 10 digits, rest) else none

/-- Reads a directive from after its percent sign, to the end of its line. -/
def directive (cs : List Spot) : Option (Token × List Spot) := do
  let (name, rest) := spanChars isWordChar cs
  let skipBlanks (cs : List Spot) : List Spot := cs.dropWhile fun s => isBlank s.char
  let (token, rest) ←
    if !atGap rest then none
    else if name = "YAML".toList then do
      let (major, rest) ← versionNumber (skipBlanks rest)
      let (minor, rest) ← if nextIs (· = '.') rest then versionNumber rest.tail else none
      some (Token.version major minor, rest)
    else if name = "TAG".toList then do
      let (handle, rest) := tagHandle (skipBlanks rest)
      let closed := handle.length = 1 || handle.getLast? = some '!'
      let (meaning, after) ← tagText true (skipBlanks rest)
      let marked := nextIs (· = '!') (skipBlanks (cs.drop 3))
      if marked && closed && nextIs isBlank rest && !meaning.isEmpty && atGap after then
        some (Token.handle (String.ofList handle) meaning, after)
      else none
    else none
  return (token, ← endLine rest)

end SinkFlow.Yaml
