/-! Cutting a text in two at a character or at a token, or in pieces at every occurrence of a character. -/

namespace SinkFlow.Text

/-- What stands before the first occurrence of a character, or everything if it does not occur. -/
def before (c : Char) (cs : List Char) : List Char := cs.takeWhile (· ≠ c)

/-- Drops the longest run at the end whose characters pass a test. -/
def dropEndWhile (p : Char → Bool) (cs : List Char) : List Char := (cs.reverse.dropWhile p).reverse

/-- What stands before and after the last occurrence of a character. -/
def cutLast (c : Char) (cs : List Char) : Option (List Char × List Char) :=
  match cs.reverse.dropWhile (· ≠ c) with
  | [] => none
  | _ :: front => some (front.reverse, (cs.reverse.takeWhile (· ≠ c)).reverse)

/-- What stands before and after the first occurrence of a token. -/
def cutAt (token : List Char) : List Char → Option (List Char × List Char)
  | [] => if token.isEmpty then some ([], []) else none
  | c :: rest =>
    if token.isPrefixOf (c :: rest) then some ([], (c :: rest).drop token.length)
    else (cutAt token rest).map fun (front, back) => (c :: front, back)

/-- The pieces between the occurrences of a character; there is always one. -/
def split (c : Char) : List Char → List (List Char)
  | [] => [[]]
  | d :: rest =>
    if d = c then [] :: split c rest
    else
      match split c rest with
      | [] => [[d]]
      | piece :: more => (d :: piece) :: more

end SinkFlow.Text
