/-!
Patterns that are searched for in texts. A pattern may match at a place in several ways, and these are tried in an
order: a run of characters is rather longer than shorter.
-/

namespace SinkFlow

/-- Patterns in texts, with a group around what is to be kept. -/
inductive Pattern where
  /-- One character that passes a test. -/
  | one (p : Char → Bool)
  /-- One or more characters that pass a test, rather more than fewer. -/
  | many (p : Char → Bool)
  /-- The end of the text. -/
  | finish
  /-- What the inner pattern takes is kept. -/
  | group (inner : Pattern)
  | seq (first second : Pattern)

namespace Pattern

/-- One way to match at a place: what is taken there, what a group keeps of it, and what comes after it. -/
structure Way where
  taken : List Char
  kept : Option (List Char)
  rest : List Char

/-- All ways to take one or more characters that pass a test, with what is left, the longest one first. -/
def runs (p : Char → Bool) : List Char → List (List Char × List Char)
  | [] => []
  | c :: cs => if p c then (runs p cs).map (fun r => (c :: r.1, r.2)) ++ [([c], cs)] else []

/-- All ways to match at the front of a text, in the order in which they are tried. -/
def ways : Pattern → List Char → List Way
  | one _, [] => []
  | one p, c :: cs => if p c then [⟨[c], none, cs⟩] else []
  | many p, cs => (runs p cs).map fun r => ⟨r.1, none, r.2⟩
  | finish, cs => if cs = [] then [⟨[], none, []⟩] else []
  | group inner, cs => (inner.ways cs).map fun w => { w with kept := some w.taken }
  | seq first second, cs =>
    (first.ways cs).flatMap fun v =>
      (second.ways v.rest).map fun w => ⟨v.taken ++ w.taken, v.kept.or w.kept, w.rest⟩

/-- Looks from left to right for a place with a match, and takes the way that is tried first there. -/
def search (a : Pattern) : List Char → Option Way
  | [] => (a.ways []).head?
  | c :: cs => (a.ways (c :: cs)).head?.or (a.search cs)

end Pattern

end SinkFlow
