import SinkFlow.Yaml

/-! The tokens of YAML text. The ends of blocks are tokens too. -/

namespace SinkFlow.Yaml

/-- A token. A tag has a handle, which a directive may explain, and a suffix. -/
inductive Token where
  | version (major minor : Nat)
  | handle (name : String) (meaning : List Char)
  | documentStart
  | documentEnd
  | blockList
  | blockMap
  | blockEnd
  | openList
  | closeList
  | openMap
  | closeMap
  | item
  | comma
  | key
  | value
  | anchor (number : Nat)
  | reference (number : Nat)
  | tag (handle : String) (suffix : List Char)
  | scalar (text : String) (style : Style)
  deriving DecidableEq, Inhabited

end SinkFlow.Yaml
