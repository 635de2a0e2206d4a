/-! JSON values, and what a record, a tagged record or a number has to look like to be read as one. -/

namespace SinkFlow

/-- A JSON value. A number with a fraction or an exponent, and `-0`, is kept as it is written. Of a value that is
well formed but cannot be taken in, such as a text with half of a surrogate pair, only its place is kept. -/
inductive Json where
  | null
  | bool (value : Bool)
  | int (value : Int)
  | real (lexeme : String)
  | str (value : String)
  | arr (items : List Json)
  | obj (members : List (String × Json))
  | unreadable
  deriving Inhabited

namespace Json

/-- The natural numbers of the format. -/
def nat (n : Nat) : Json := int (Int.ofNat n)

mutual

/-- Whether every part of a value can be taken in. -/
def isReadable : Json → Bool
  | arr items => allReadable items
  | obj members => membersReadable members
  | unreadable => false
  | _ => true

/-- Whether every part of every item can be taken in. -/
def allReadable : List Json → Bool
  | [] => true
  | item :: rest => isReadable item && allReadable rest

/-- Whether every part of every member can be taken in. -/
def membersReadable : List (String × Json) → Bool
  | [] => true
  | (_, value) :: rest => isReadable value && membersReadable rest

end

/-- A text. -/
def asString : Json → Option String
  | str s => some s
  | _ => none

/-- A truth value. -/
def asBool : Json → Option Bool
  | bool b => some b
  | _ => none

/-- A text of exactly one character. -/
def asChar : Json → Option Char
  | str s =>
    match s.toList with
    | [c] => some c
    | _ => none
  | _ => none

/-- A whole number that is not below zero and below a bound. -/
def asNatBelow (bound : Nat) : Json → Option Nat
  | int i => if 0 ≤ i ∧ i.toNat < bound then some i.toNat else none
  | _ => none

/-- A 32-bit whole number. -/
def asUInt32 (j : Json) : Option UInt32 := (j.asNatBelow UInt32.size).map UInt32.ofNat

/-- A 64-bit whole number. -/
def asUInt64 (j : Json) : Option UInt64 := (j.asNatBelow UInt64.size).map UInt64.ofNat

/-- A signed 64-bit whole number. -/
def asInt64 : Json → Option Int64
  | int i => if Int64.minValue.toInt ≤ i ∧ i ≤ Int64.maxValue.toInt then some (Int64.ofInt i) else none
  | _ => none

/-- A list whose items are all read in one way. -/
def asList {α : Type} (read : Json → Option α) : Json → Option (List α)
  | arr items => items.mapM read
  | _ => none

/-- A list of exactly two items. -/
def asPair {α β : Type} (first : Json → Option α) (second : Json → Option β) : Json → Option (α × β)
  | arr [a, b] => do return (← first a, ← second b)
  | _ => none

/-- A value, or null for its absence. -/
def orNull {α : Type} (read : Json → Option α) : Json → Option (Option α)
  | null => some none
  | j => (read j).map some

/-- The members of a record that its reader knows, each at most once. -/
abbrev Record := List (String × Json)

/-- Sees a value as a record with the given members. An object may have members that are not known,
and none that is known twice. A list gives the members in their order; it may leave out those after
the first `required` ones. -/
def record (names : List String) (required : Nat) : Json → Option Record
  | obj members =>
    let known := members.filter fun m => m.1 ∈ names
    if (known.map Prod.fst).Nodup then some known else none
  | arr items =>
    if required ≤ items.length ∧ items.length ≤ names.length then some (names.zip items) else none
  | _ => none

namespace Record

/-- A member that has to be there. -/
def needed {α : Type} (r : Record) (name : String) (read : Json → Option α) : Option α :=
  (r.lookup name).bind read

/-- A member that may be left out or be null. -/
def optional {α : Type} (r : Record) (name : String) (read : Json → Option α) : Option (Option α) :=
  match r.lookup name with
  | none => some none
  | some j => orNull read j

/-- A member with a value that stands for its absence. -/
def defaulted {α : Type} (r : Record) (name : String) (absent : α) (read : Json → Option α) : Option α :=
  match r.lookup name with
  | none => some absent
  | some j => read j

end Record

/-- Reads a tag: one of the given words or, if `byPosition`, also the position of one of them. -/
def asTag (tags : List String) (byPosition : Bool) : Json → Option String
  | str s => if s ∈ tags then some s else none
  | int i => if byPosition ∧ 0 ≤ i then tags[i.toNat]? else none
  | _ => none

/-- Splits a tagged record into its tag and its other members. A list has its tag first. The tag may come last, so
that the members are taken in before anything is known about them: every part of them has to be readable. -/
def tagged (key : String) (tags : List String) (byPosition : Bool) (j : Json) : Option (String × Json) :=
  if j.isReadable then
    match j with
    | obj members =>
      match members.filter (·.1 = key) with
      | [(_, tag)] => do return (← asTag tags byPosition tag, obj (members.filter (·.1 ≠ key)))
      | _ => none
    | arr (tag :: rest) => do return (← asTag tags byPosition tag, arr rest)
    | _ => none
  else none

/-- Whether a value can stand for a tagged record without members. -/
def isBare : Json → Bool
  | obj _ => true
  | arr [] => true
  | _ => false

/-- A record with exactly one member, or a lone word. -/
def asVariant : Json → Option (String × Option Json)
  | str s => some (s, none)
  | obj [(name, value)] => some (name, some value)
  | _ => none

end Json

end SinkFlow
