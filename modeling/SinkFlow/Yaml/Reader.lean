import SinkFlow.Yaml.Token.Lexer

/-! Reading a YAML text as one document: the nodes that its tokens stand for. -/

namespace SinkFlow.Yaml

/-- What the handles of tags stand for. -/
abbrev Handles := List (String × List Char)

/-- The handles that need no directive. -/
def knownHandles : Handles := [("!", ['!']), ("!!", "tag:yaml.org,2002:".toList)]

/-- The tag with a handle and a suffix; a handle has to be known. -/
def tagName (handles : Handles) (handle : String) (suffix : List Char) : Option String :=
  if handle.isEmpty then some (String.ofList suffix)
  else (handles.lookup handle).map fun meaning => String.ofList (meaning ++ suffix)

/-- What may stand in front of a node. -/
structure Properties where
  anchor : Option Nat := none
  tag : Option String := none

/-- Reads an anchor and a tag, in either order and each at most once. -/
def properties (handles : Handles) : List Token → Option (Properties × List Token)
  | .anchor a :: .tag h s :: rest => do return (⟨some a, some (← tagName handles h s)⟩, rest)
  | .tag h s :: .anchor a :: rest => do return (⟨some a, some (← tagName handles h s)⟩, rest)
  | .anchor a :: rest => some (⟨some a, none⟩, rest)
  | .tag h s :: rest => do return (⟨none, some (← tagName handles h s)⟩, rest)
  | ts => some ({}, ts)

/-- A node with its anchor. -/
def Properties.mark (p : Properties) (node : Yaml) : Yaml := (p.anchor.map (anchored · node)).getD node

/-- The node of which nothing but these is given; one of them has to be. -/
def Properties.alone (p : Properties) : Option Yaml :=
  if p.anchor.isSome || p.tag.isSome then some (p.mark (scalar "" .plain p.tag)) else none

/-- Whether one of some tokens comes next. -/
def nextIn (marks ts : List Token) : Bool := ts.head?.any (· ∈ marks)

mutual

/-- Reads a node. Blocks may start where `block` says so, and a list in the column of the mapping around it where
`atItem` says so. -/
def node (handles : Handles) (block atItem : Bool) : Nat → List Token → Option (Yaml × List Token)
  | 0, _ => none
  | _ + 1, .reference a :: rest => some (reference a, rest)
  | fuel + 1, ts => do
    let (p, ts) ← properties handles ts
    match ts with
    | .scalar text style :: rest => some (p.mark (scalar text style p.tag), rest)
    | .openList :: rest => do
      let (items, rest) ← flowItems handles true fuel rest
      return (p.mark (list items), rest)
    | .openMap :: rest => do
      let (entries, rest) ← flowEntries handles true fuel rest
      return (p.mark (map entries), rest)
    | .blockList :: rest =>
      if block then do
        let (items, rest) ← blockItems handles fuel rest
        return (p.mark (list items), rest)
      else p.alone.map (·, ts)
    | .blockMap :: rest =>
      if block then do
        let (entries, rest) ← blockEntries handles fuel rest
        return (p.mark (map entries), rest)
      else p.alone.map (·, ts)
    | .item :: _ =>
      if atItem then do
        let (items, rest) ← alignedItems handles fuel ts
        return (p.mark (list items), rest)
      else p.alone.map (·, ts)
    | _ => p.alone.map (·, ts)

/-- Reads a node unless one of some marks comes next, before which it is left out. -/
def nodeOrAbsent (handles : Handles) (block atItem : Bool) (marks : List Token) :
    Nat → List Token → Option (Yaml × List Token)
  | 0, _ => none
  | fuel + 1, ts => if nextIn marks ts then some (absent, ts) else node handles block atItem fuel ts

/-- Reads a value if its mark comes next. -/
def valueOrAbsent (handles : Handles) (block : Bool) (marks : List Token) :
    Nat → List Token → Option (Yaml × List Token)
  | 0, _ => none
  | fuel + 1, .value :: rest => nodeOrAbsent handles block block marks fuel rest
  | _ + 1, ts => some (absent, ts)

/-- Reads the items of a block list and its end. -/
def blockItems (handles : Handles) : Nat → List Token → Option (List Yaml × List Token)
  | 0, _ => none
  | fuel + 1, .item :: rest => do
    let (item, rest) ← nodeOrAbsent handles true false [.item, .blockEnd] fuel rest
    let (items, rest) ← blockItems handles fuel rest
    return (item :: items, rest)
  | _ + 1, .blockEnd :: rest => some ([], rest)
  | _ + 1, _ => none

/-- Reads the items of a block list in the column of the mapping around it, which has no end of its own. -/
def alignedItems (handles : Handles) : Nat → List Token → Option (List Yaml × List Token)
  | 0, _ => none
  | fuel + 1, .item :: rest => do
    let (item, rest) ← nodeOrAbsent handles true false [.item, .key, .value, .blockEnd] fuel rest
    let (items, rest) ← alignedItems handles fuel rest
    return (item :: items, rest)
  | _ + 1, ts => some ([], ts)

/-- Reads the entries of a block mapping and its end. -/
def blockEntries (handles : Handles) : Nat → List Token → Option (List (Yaml × Yaml) × List Token)
  | 0, _ => none
  | fuel + 1, .key :: rest => do
    let (key, rest) ← nodeOrAbsent handles true true [.key, .value, .blockEnd] fuel rest
    let (value, rest) ← valueOrAbsent handles true [.key, .value, .blockEnd] fuel rest
    let (entries, rest) ← blockEntries handles fuel rest
    return ((key, value) :: entries, rest)
  | _ + 1, .blockEnd :: rest => some ([], rest)
  | _ + 1, _ => none

/-- Reads the items of a flow list and its closing bracket. A comma may stand behind the last one. -/
def flowItems (handles : Handles) (first : Bool) : Nat → List Token → Option (List Yaml × List Token)
  | 0, _ => none
  | _ + 1, .closeList :: rest => some ([], rest)
  | fuel + 1, ts => do
    let ts ← if first then some ts else if nextIn [.comma] ts then some ts.tail else none
    match ts with
    | .closeList :: rest => some ([], rest)
    | _ => do
      let (item, rest) ← flowItem handles fuel ts
      let (items, rest) ← flowItems handles false fuel rest
      return (item :: items, rest)

/-- Reads an item of a flow list. A key stands for a mapping with one entry; where it is left out, the mark after it
goes with it. -/
def flowItem (handles : Handles) : Nat → List Token → Option (Yaml × List Token)
  | 0, _ => none
  | fuel + 1, .key :: rest => do
    let (key, rest) ←
      if nextIn [.value, .comma, .closeList] rest then some (absent, rest.tail)
      else node handles false false fuel rest
    let (value, rest) ← valueOrAbsent handles false [.comma, .closeList] fuel rest
    return (map [(key, value)], rest)
  | fuel + 1, ts => node handles false false fuel ts

/-- Reads the entries of a flow mapping and its closing brace. -/
def flowEntries (handles : Handles) (first : Bool) : Nat → List Token → Option (List (Yaml × Yaml) × List Token)
  | 0, _ => none
  | _ + 1, .closeMap :: rest => some ([], rest)
  | fuel + 1, ts => do
    let ts ← if first then some ts else if nextIn [.comma] ts then some ts.tail else none
    match ts with
    | .closeMap :: rest => some ([], rest)
    | _ => do
      let (entry, rest) ← flowEntry handles fuel ts
      let (entries, rest) ← flowEntries handles false fuel rest
      return (entry :: entries, rest)

/-- Reads an entry of a flow mapping. Without a mark in front of its key, it has no value. -/
def flowEntry (handles : Handles) : Nat → List Token → Option ((Yaml × Yaml) × List Token)
  | 0, _ => none
  | fuel + 1, .key :: rest => do
    let (key, rest) ← nodeOrAbsent handles false false [.value, .comma, .closeMap] fuel rest
    let (value, rest) ← valueOrAbsent handles false [.comma, .closeMap] fuel rest
    return ((key, value), rest)
  | fuel + 1, ts => do
    let (key, rest) ← node handles false false fuel ts
    return ((key, absent), rest)

end

/-- Whether a directive, a mark between documents or the end comes next. -/
def atDocumentEnd : List Token → Bool
  | [] => true
  | .version _ _ :: _ => true
  | .handle _ _ :: _ => true
  | .documentStart :: _ => true
  | .documentEnd :: _ => true
  | _ => false

/-- Reads the directives in front of a document: one version at most, which has to be 1.1 or 1.2, and handles, each
at most once. -/
def directives (versioned : Bool) (handles : Handles) : List Token → Option (Handles × List Token)
  | .version major minor :: rest =>
    if !versioned && major = 1 && (minor = 1 || minor = 2) then directives true handles rest else none
  | .handle name meaning :: rest =>
    if handles.any (·.1 = name) then none else directives versioned ((name, meaning) :: handles) rest
  | ts => some (handles, ts)

/-- Reads the only document of a text. Without a mark in front of it, it has no directives. -/
def document (ts : List Token) : Option Yaml := do
  let (handles, rest) ← directives false [] ts
  let fuel := 4 * ts.length + 4
  let (root, rest) ←
    match ts, rest with
    | [], _ => some (absent, [])
    | _, .documentStart :: rest =>
      if atDocumentEnd rest then some (absent, rest) else node (handles ++ knownHandles) true false fuel rest
    | _, _ => if atDocumentEnd ts then none else node knownHandles true false fuel ts
  if (rest.dropWhile (· = .documentEnd)).isEmpty then some root else none

/-- Reads a text as one document. -/
def parse (text : String) : Option Yaml := (tokens text).bind document

end SinkFlow.Yaml
