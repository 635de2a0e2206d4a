import SinkFlow.Yaml.Token.Scalar
import SinkFlow.Yaml.Token.Tag

/-!
Splitting YAML text into tokens. Blocks are told by columns. That something is the key of a mapping shows only at the
colon after it, so that every place where a key may start is kept in mind until then; the key has to end on the line
where it starts, and within 1024 bytes.
-/

namespace SinkFlow.Yaml

/-- A place where a key may have started: how many tokens come before it, and where it stands. A key has to be there
if the place is in the column of the block. -/
structure KeyPlace where
  position : Nat
  line : Nat
  column : Nat
  index : Nat
  required : Bool
  deriving Inhabited

/-- What is known in the middle of a text. The newest token, the innermost block and the last anchor stand first. -/
structure Lexer where
  tokens : List Token := []
  /-- The columns of the open blocks. -/
  columns : List Nat := []
  /-- Whether a key may start here. -/
  keyAllowed : Bool := true
  /-- Where a key may have started, for the innermost flow list or mapping. -/
  keyPlace : Option KeyPlace := none
  /-- The same for those around it, one for each that is open. -/
  outer : List (Option KeyPlace) := []
  /-- The names of the anchors and their numbers. -/
  anchors : List (String × Nat) := []
  deriving Inhabited

namespace Lexer

/-- Whether a flow list or mapping is open. -/
def inFlow (l : Lexer) : Bool := !l.outer.isEmpty

/-- The least column in which the parts of the innermost block may stand. -/
def margin (l : Lexer) : Nat := (l.columns.head?.map (· + 1)).getD 0

/-- Adds a token. -/
def emit (l : Lexer) (t : Token) : Lexer := { l with tokens := t :: l.tokens }

/-- Adds tokens after the first `position` ones. -/
def insertAt (l : Lexer) (position : Nat) (ts : List Token) : Lexer :=
  let newer := l.tokens.length - position
  { l with tokens := l.tokens.take newer ++ ts.reverse ++ l.tokens.drop newer }

/-- Whether a key that may have started at a place can no longer end here. -/
def isStale (s : Spot) (p : KeyPlace) : Bool := p.line < s.line || p.index + 1024 < s.index

/-- Forgets the places whose keys can no longer end here; a required key must not be among them. -/
def dropStale (l : Lexer) (s : Spot) : Option Lexer :=
  let places := l.keyPlace :: l.outer
  if places.any fun p => p.any fun p => isStale s p && p.required then none
  else
    let fresh := fun p : Option KeyPlace => p.filter fun p => !isStale s p
    some { l with keyPlace := fresh l.keyPlace, outer := l.outer.map fresh }

/-- Forgets where a key may have started; it must not be required. -/
def dropKey (l : Lexer) : Option Lexer :=
  if l.keyPlace.any KeyPlace.required then none else some { l with keyPlace := none }

/-- Keeps a place in mind if a key may start there. -/
def saveKey (l : Lexer) (s : Spot) : Option Lexer :=
  if l.keyAllowed then do
    let l ← l.dropKey
    let required := !l.inFlow && l.columns.head? = some s.column
    return { l with keyPlace := some ⟨l.tokens.length, s.line, s.column, s.index, required⟩ }
  else some l

/-- Opens a block in a column unless one is open there, and puts its token in the given place. -/
def openBlock (l : Lexer) (column position : Nat) (t : Token) : Lexer :=
  if !l.inFlow && l.columns.head?.all (· < column) then
    { l.insertAt position [t] with columns := column :: l.columns }
  else l

/-- Opens a block at a mark, where a key may start. In a flow list or mapping there are no blocks. -/
def startBlock (l : Lexer) (s : Spot) (t : Token) : Option Lexer :=
  if l.inFlow then some l
  else if l.keyAllowed then some (l.openBlock s.column l.tokens.length t)
  else none

/-- Closes the blocks that are not in one of the columns that pass a test. -/
def closeBlocks (l : Lexer) (keep : Nat → Bool) : Lexer :=
  if l.inFlow then l
  else
    let closed := l.columns.takeWhile fun c => !keep c
    { l with
      tokens := closed.map (fun _ => Token.blockEnd) ++ l.tokens
      columns := l.columns.dropWhile fun c => !keep c }

/-- Goes on to the next token, over blanks, line ends, comments and the byte order mark at the start of a line. A key
may start on a new line of a block. Where a key may start in a block, tabs are no blanks. -/
def skip (flow keyAllowed comment : Bool) : List Spot → Bool × List Spot
  | [] => (keyAllowed, [])
  | s :: rest =>
    if isBreak s.char then skip flow (keyAllowed || !flow) false rest
    else if comment || s.char = ' ' || (s.char = '\t' && (flow || !keyAllowed)) ||
        (s.char = byteOrderMark && s.column = 0) then
      skip flow keyAllowed comment rest
    else if s.char = '#' then skip flow keyAllowed true rest
    else (keyAllowed, s :: rest)

/-- Ends all blocks, in front of a directive, a mark between documents or the end of the text. -/
def closeAll (l : Lexer) : Option Lexer := do
  let l ← (l.closeBlocks fun _ => false).dropKey
  return { l with keyAllowed := false }

/-- The bracket that opens a flow list or mapping; the whole of it may be a key. -/
def openFlow (l : Lexer) (s : Spot) (t : Token) : Option Lexer := do
  let l ← l.saveKey s
  return { l.emit t with keyAllowed := true, keyPlace := none, outer := l.keyPlace :: l.outer }

/-- The bracket that closes a flow list or mapping. -/
def closeFlow (l : Lexer) (t : Token) : Option Lexer := do
  let l ← l.dropKey
  let (keyPlace, outer) :=
    match l.outer with
    | p :: rest => (p, rest)
    | [] => (none, [])
  return { l.emit t with keyAllowed := false, keyPlace, outer }

/-- A comma. -/
def comma (l : Lexer) : Option Lexer := do
  let l ← l.dropKey
  return { l.emit .comma with keyAllowed := true }

/-- The dash of an item. -/
def item (l : Lexer) (s : Spot) : Option Lexer := do
  let l ← (← l.startBlock s .blockList).dropKey
  return { l.emit .item with keyAllowed := true }

/-- A question mark in front of a key. -/
def explicitKey (l : Lexer) (s : Spot) : Option Lexer := do
  let l ← (← l.startBlock s .blockMap).dropKey
  return { l.emit .key with keyAllowed := !l.inFlow }

/-- The colon in front of a value. If a key may have started, it did. -/
def colon (l : Lexer) (s : Spot) : Option Lexer :=
  match l.keyPlace with
  | some p =>
    let l := (l.insertAt p.position [.key]).openBlock p.column p.position .blockMap
    some { l.emit .value with keyPlace := none, keyAllowed := false }
  | none => (l.startBlock s .blockMap).map fun l => { l.emit .value with keyAllowed := !l.inFlow }

/-- The anchor of a node. Its number is the number of names that were known before. -/
def anchor (l : Lexer) (s : Spot) (rest : List Spot) : Option (Lexer × List Spot) := do
  let l ← l.saveKey s
  let (name, rest) ← anchorName rest
  let number := l.anchors.length
  let anchors := (name, number) :: l.anchors.filter (·.1 ≠ name)
  return ({ l.emit (.anchor number) with keyAllowed := false, anchors }, rest)

/-- A reference to an anchor, which has to be known. -/
def reference (l : Lexer) (s : Spot) (rest : List Spot) : Option (Lexer × List Spot) := do
  let l ← l.saveKey s
  let (name, rest) ← anchorName rest
  let number ← l.anchors.lookup name
  return ({ l.emit (.reference number) with keyAllowed := false }, rest)

/-- A scalar in quotes. -/
def quoted (l : Lexer) (s : Spot) (rest : List Spot) : Option (Lexer × List Spot) := do
  let l ← l.saveKey s
  let (text, rest) ← quotedScalar s.char rest
  return ({ l.emit (.scalar (String.ofList text) .quoted) with keyAllowed := false }, rest)

/-- A block scalar. -/
def block (l : Lexer) (folded : Bool) (rest : List Spot) : Option (Lexer × List Spot) := do
  let l ← l.dropKey
  let (text, rest) ← blockScalar folded l.margin rest
  let style := if folded then Style.folded else Style.literal
  return ({ l.emit (.scalar (String.ofList text) style) with keyAllowed := true }, rest)

/-- A plain scalar. A key may follow it on a new line. -/
def plain (l : Lexer) (s : Spot) (rest : List Spot) : Option (Lexer × List Spot) := do
  let l ← l.saveKey s
  let (text, newLine, rest) ← plainScalar l.inFlow l.margin (s :: rest)
  return ({ l.emit (.scalar (String.ofList text) .plain) with keyAllowed := newLine }, rest)

/-- Reads the token that starts with a character. -/
def token (l : Lexer) (s : Spot) (rest : List Spot) : Option (Lexer × List Spot) :=
  let c := s.char
  if s.column = 0 && c = '%' then do
    let l ← l.closeAll
    let (t, rest) ← directive rest
    return (l.emit t, rest)
  else if startsWithMark '-' (s :: rest) then do return ((← l.closeAll).emit .documentStart, rest.drop 2)
  else if startsWithMark '.' (s :: rest) then do return ((← l.closeAll).emit .documentEnd, rest.drop 2)
  else if c = '[' then do return (← l.openFlow s .openList, rest)
  else if c = '\x7b' then do return (← l.openFlow s .openMap, rest)
  else if c = ']' then do return (← l.closeFlow .closeList, rest)
  else if c = '\x7d' then do return (← l.closeFlow .closeMap, rest)
  else if c = ',' then do return (← l.comma, rest)
  else if c = '-' && atGap rest then do return (← l.item s, rest)
  else if c = '?' && (l.inFlow || atGap rest) then do return (← l.explicitKey s, rest)
  else if c = ':' && (l.inFlow || atGap rest) then do return (← l.colon s, rest)
  else if c = '*' then l.reference s rest
  else if c = '&' then l.anchor s rest
  else if c = '!' then do
    let l ← l.saveKey s
    let (t, rest) ← tagToken l.inFlow (s :: rest)
    return ({ l.emit t with keyAllowed := false }, rest)
  else if (c = '|' || c = '>') && !l.inFlow then l.block (c = '>') rest
  else if c = '\'' || c = '"' then l.quoted s rest
  else if startsPlain l.inFlow (s :: rest) then l.plain s rest
  else none

/-- Reads all tokens. -/
def run : Nat → Lexer → List Spot → Option (List Token)
  | 0, _, _ => none
  | fuel + 1, l, cs =>
    let (keyAllowed, cs) := skip l.inFlow l.keyAllowed false cs
    let l := { l with keyAllowed }
    match cs with
    | [] => l.closeAll.map fun l => l.tokens.reverse
    | s :: rest => do
      let l ← l.dropStale s
      let (l, rest) ← (l.closeBlocks (· ≤ s.column)).token s rest
      run fuel l rest

end Lexer

/-- The tokens of a text. -/
def tokens (text : String) : Option (List Token) :=
  let cs := text.toList
  if cs.all isAllowed then Lexer.run (cs.length + 1) {} (spots 0 0 0 cs) else none

end SinkFlow.Yaml
