import SinkFlow.Text.Digits
import SinkFlow.Yaml.Spot

/-!
Reading scalars. Inside a scalar that goes on over several lines, a line end becomes a blank, and each further one is
kept; blanks around line ends are dropped.
-/

namespace SinkFlow.Yaml

/-- What stands between two words of a scalar: blanks of one line, or line ends. The first line end is missing if it
was escaped. -/
inductive Gap where
  | blanks (run : List Char)
  | lines (first : Option Char) (more : List Char)
  deriving Inhabited

namespace Gap

/-- No gap. -/
def none : Gap := blanks []

/-- Whether there is a gap. -/
def isSome : Gap → Bool
  | blanks run => !run.isEmpty
  | lines _ _ => true

/-- Whether the gap has a line end. -/
def hasBreak : Gap → Bool
  | blanks _ => false
  | lines _ _ => true

/-- A gap with one more blank or line end. -/
def add (c : Char) : Gap → Gap
  | blanks run => if isBreak c then lines (some c) [] else blanks (run ++ [c])
  | lines first more => if isBreak c then lines first (more ++ [c]) else lines first more

/-- The text that a gap stands for. -/
def fold : Gap → List Char
  | blanks run => run
  | lines (some '\n') [] => [' ']
  | lines (some '\n') more => more
  | lines first more => first.toList ++ more

end Gap

/-- Whether a colon here separates a key from its value. -/
def endsKey : List Spot → Bool
  | s :: rest => s.char = ':' && atGap rest
  | [] => false

/-- Goes on reading a plain scalar; the last character read so far stands first. Gives the text, whether the gap after
it has a line end, and what follows the gap. Further lines have to reach the column `margin`. -/
def plainFrom (flow : Bool) (margin : Nat) (gap : Gap) (read : List Char) :
    List Spot → Option (List Char × Bool × List Spot)
  | [] => some (read.reverse, gap.hasBreak, [])
  | s :: rest =>
    if isBlank s.char || isBreak s.char then
      if gap.hasBreak && s.char = '\t' && s.column < margin then none
      else plainFrom flow margin (gap.add s.char) read rest
    else if (gap.isSome && (s.char = '#' || (!flow && s.column < margin))) || atDocumentMark (s :: rest) then
      some (read.reverse, gap.hasBreak, s :: rest)
    else if flow && s.char = ':' && nextIs (fun c => isFlowMark c || c = '?') rest then none
    else if endsKey (s :: rest) || (flow && isFlowMark s.char) then some (read.reverse, gap.hasBreak, s :: rest)
    else plainFrom flow margin Gap.none (s.char :: (gap.fold.reverse ++ read)) rest

/-- Reads a plain scalar. -/
def plainScalar (flow : Bool) (margin : Nat) (cs : List Spot) : Option (List Char × Bool × List Spot) :=
  plainFrom flow margin Gap.none [] cs

/-- Whether a plain scalar may start here. -/
def startsPlain (flow : Bool) : List Spot → Bool
  | [] => false
  | s :: rest =>
    let c := s.char
    if c = '-' then !nextIs isBlank rest
    else if c = '?' || c = ':' then !flow && !atGap rest
    else !(isBlank c || isBreak c || isFlowMark c || c = '#' || c = '&' || c = '*' || c = '!' || c = '|' ||
      c = '>' || c = '\'' || c = '"' || c = '%' || c = '@' || c.toNat == 0x60)

/-- Goes on reading a scalar in single quotes; two quotes stand for one. -/
def singleFrom (gap : Gap) (read : List Char) : List Spot → Option (List Char × List Spot)
  | [] => none
  | s :: rest =>
    if isBlank s.char || isBreak s.char then singleFrom (gap.add s.char) read rest
    else if atDocumentMark (s :: rest) then none
    else
      let read := gap.fold.reverse ++ read
      if s.char = '\'' then
        match rest with
        | t :: more => if t.char = '\'' then singleFrom Gap.none ('\'' :: read) more else some (read.reverse, rest)
        | [] => some (read.reverse, [])
      else singleFrom Gap.none (s.char :: read) rest

/-- The characters of the escapes with one letter. -/
def escape? (c : Char) : Option Char :=
  if c = '0' then some '\x00'
  else if c = 'a' then some '\x07'
  else if c = 'b' then some '\x08'
  else if c = 't' || c = '\t' then some '\t'
  else if c = 'n' then some '\n'
  else if c = 'v' then some '\x0b'
  else if c = 'f' then some '\x0c'
  else if c = 'r' then some '\r'
  else if c = 'e' then some '\x1b'
  else if c = ' ' || c = '"' || c = '/' || c = '\\' then some c
  else if c = 'N' then some (Char.ofNat 0x85)
  else if c = '_' then some (Char.ofNat 0xA0)
  else if c = 'L' then some (Char.ofNat 0x2028)
  else if c = 'P' then some (Char.ofNat 0x2029)
  else none

/-- The number of digits of a hexadecimal escape. -/
def hexWidth? (c : Char) : Option Nat :=
  if c = 'x' then some 2 else if c = 'u' then some 4 else if c = 'U' then some 8 else none

/-- The character of a hexadecimal escape. -/
def hexEscape (width : Nat) (cs : List Char) : Option Char := do
  let n ← if (cs.take width).length = width then Text.number? 16 (cs.take width) else none
  if n.isValidChar then some (Char.ofNat n) else none

/-- What a backslash and the characters after it stand for: a character, or an escaped line end. -/
def backslash : List Spot → Option (Option Char × List Spot)
  | [] => none
  | s :: rest =>
    if isBreak s.char then some (none, rest)
    else
      match hexWidth? s.char with
      | some width => do return (some (← hexEscape width (rest.map Spot.char)), rest.drop width)
      | none => do return (some (← escape? s.char), rest)

/-- Goes on reading a scalar in double quotes. -/
def doubleFrom : Nat → Gap → List Char → List Spot → Option (List Char × List Spot)
  | 0, _, _, _ => none
  | _ + 1, _, _, [] => none
  | fuel + 1, gap, read, s :: rest =>
    if isBlank s.char || isBreak s.char then doubleFrom fuel (gap.add s.char) read rest
    else if atDocumentMark (s :: rest) then none
    else
      let read := gap.fold.reverse ++ read
      if s.char = '"' then some (read.reverse, rest)
      else if s.char = '\\' then do
        let (c, rest) ← backslash rest
        match c with
        | some c => doubleFrom fuel Gap.none (c :: read) rest
        | none => doubleFrom fuel (Gap.lines none []) read rest
      else doubleFrom fuel Gap.none (s.char :: read) rest

/-- Reads a scalar in quotes from after its first quote. -/
def quotedScalar (quote : Char) (cs : List Spot) : Option (List Char × List Spot) :=
  if quote = '\'' then singleFrom Gap.none [] cs else doubleFrom (cs.length + 1) Gap.none [] cs

/-- What becomes of the line ends after the last line of a block: all are dropped, one is kept, or all are. -/
inductive Chomp where
  | strip
  | clip
  | keep
  deriving DecidableEq, Inhabited

/-- The head of a block scalar: how many columns it is indented, if that is said, and what becomes of its last line
ends. -/
structure BlockHead where
  indent : Option Nat := none
  chomp : Chomp := .clip

/-- A mark for the last line ends. -/
def chomp? (c : Char) : Option Chomp := if c = '+' then some .keep else if c = '-' then some .strip else none

/-- An indentation of one to nine columns. -/
def indent? (c : Char) : Option Nat := (Text.digit? 10 c).filter (0 < ·)

/-- Reads the head of a block scalar: the two marks may come in either order, and each may be missing. -/
def blockHead (cs : List Spot) : BlockHead × List Spot :=
  let c := (cs.head?.map Spot.char).getD ' '
  let d := (cs.tail.head?.map Spot.char).getD ' '
  match chomp? c, indent? c, chomp? d, indent? d with
  | some chomp, _, _, some n => (⟨some n, chomp⟩, cs.drop 2)
  | some chomp, _, _, none => (⟨none, chomp⟩, cs.drop 1)
  | none, some n, some chomp, _ => (⟨some n, chomp⟩, cs.drop 2)
  | none, some n, none, _ => (⟨some n, .clip⟩, cs.drop 1)
  | none, none, _, _ => ({}, cs)

/-- Drops the indentation of a block and takes its empty lines. Gives also the widest indentation that was seen. A tab
must not stand in an indentation; without a known indentation, none at all. -/
def blockBreaks (indent : Option Nat) (widest : Nat) : List Spot → Option (List Char × Nat × List Spot)
  | [] => some ([], widest, [])
  | s :: rest =>
    let inside := indent.all (s.column < ·)
    if inside && s.char = ' ' then blockBreaks indent widest rest
    else if inside && s.char = '\t' then none
    else
      let widest := max widest s.column
      if isBreak s.char then do
        let (breaks, widest, rest) ← blockBreaks indent widest rest
        return (s.char :: breaks, widest, rest)
      else some ([], widest, s :: rest)

/-- What the line ends after the last line of a block stand for. -/
def Chomp.apply (first : Option Char) (more : List Char) : Chomp → List Char
  | strip => []
  | clip => first.toList
  | keep => first.toList ++ more

/-- Reads the lines of a block scalar. `first` is the line end before the next line, `more` are those of the empty lines
after it, and `indented` says whether the line before starts with a blank. Lines that do not start with one are
joined if the block is folded. -/
def blockLines (folded : Bool) (chomp : Chomp) (indent : Nat) :
    Nat → Option Char → List Char → Bool → List Spot → Option (List Char × List Spot)
  | 0, _, _, _, _ => none
  | fuel + 1, first, more, indented, cs =>
    match cs with
    | s :: _ =>
      if s.column = indent then do
        let blank := isBlank s.char
        let joint :=
          if folded && first = some '\n' && !indented && !blank then if more.isEmpty then [' '] else []
          else first.toList
        let (line, rest) := spanChars (fun c => !isBreak c) cs
        let (next, _, after) ← blockBreaks (some indent) 0 rest.tail
        let (text, rest) ← blockLines folded chomp indent fuel (rest.head?.map Spot.char) next blank after
        return (joint ++ more ++ line ++ text, rest)
      else some (chomp.apply first more, cs)
    | [] => some (chomp.apply first more, [])

/-- Reads a block scalar from after its first mark. `margin` is the least column that its lines may start in. -/
def blockScalar (folded : Bool) (margin : Nat) (cs : List Spot) : Option (List Char × List Spot) := do
  let (head, rest) := blockHead cs
  let rest ← endLine rest
  let known := head.indent.map fun n => margin - 1 + n
  let (breaks, widest, rest) ← blockBreaks known 0 rest
  blockLines folded head.chomp (known.getD (max (max widest margin) 1)) (rest.length + 1) none breaks false rest

end SinkFlow.Yaml
