import SinkFlow.Literal
import SinkFlow.Order
import SinkFlow.Path
import SinkFlow.Signature
import SinkFlow.Table

/-!
Facts: what is known to reach a node, item by item, each with its trace. Facts only grow, and an item
keeps the trace with which it came first.
-/

namespace SinkFlow

/-- The four kinds of items. -/
inductive Facet where
  | texts
  | constants
  | inputFields
  | outputFields
  deriving DecidableEq, Inhabited

/-- All facets, in their order. -/
def Facet.all : List Facet := [.texts, .constants, .inputFields, .outputFields]

/-- One thing that can reach a node. -/
inductive Item where
  | text (value : String)
  | constant (value : Constant)
  | inputField (field : FieldSignature)
  | outputField (field : FieldSignature)
  deriving DecidableEq, Inhabited

/-- The facet that an item belongs to. -/
def Item.facet : Item → Facet
  | text _ => .texts
  | constant _ => .constants
  | inputField _ => .inputFields
  | outputField _ => .outputFields

/-- The item that a literal contributes. -/
def Literal.item : Literal → Item
  | text t => .text t
  | constant c => .constant c

/-- The trace with which a literal starts. No trace is kept for constants. -/
def Literal.trace : Literal → Trace
  | text _ => some []
  | constant _ => none

/-- The items known at a node, with their traces. -/
structure Facts where
  items : Table Item Trace := ∅
  deriving DecidableEq

namespace Facts

/-- Nothing is known. -/
def empty : Facts := {}

instance : Inhabited Facts := ⟨empty⟩

/-- Whether an item is known. -/
def has (f : Facts) (i : Item) : Bool := f.items.contains i

/-- The trace of a known item. -/
def trace? (f : Facts) (i : Item) : Option Trace := f.items.get? i

/-- Whether nothing is known. -/
def isEmpty (f : Facts) : Bool := f.items.isEmpty

/-- The number of known items. -/
def size (f : Facts) : Nat := f.items.size

/-- The number of known items of one facet. -/
def facetSize (f : Facts) (facet : Facet) : Nat := f.items.keys.countP (·.facet = facet)

/-- Whether no item of one facet is known. -/
def lacks (f : Facts) (facet : Facet) : Bool := f.items.keys.all (·.facet ≠ facet)

/-- Whether a field is known to lead in or out. -/
def hasFields (f : Facts) : Bool := !f.lacks .inputFields || !f.lacks .outputFields

/-- Adds an item; an item that is known keeps its trace. -/
def add (f : Facts) (i : Item) (t : Trace) : Facts := ⟨f.items.insertIfNew i t⟩

/-- Adds what a literal contributes. -/
def addLiteral (f : Facts) (l : Literal) : Facts := f.add l.item l.trace

/-- Keeps the items that pass a test. -/
def filter (p : Item → Bool) (f : Facts) : Facts := ⟨f.items.filter fun i _ => p i⟩

/-- The items of one facet. -/
def only (f : Facts) (facet : Facet) : Facts := f.filter (·.facet = facet)

/-- The items that the other facts do not have. -/
def without (f other : Facts) : Facts := f.filter fun i => !other.has i

/-- The items that the other facts have too. -/
def common (f other : Facts) : Facts := f.filter other.has

/-- Adds entries one after another. -/
def addAll (f : Facts) (es : List (Item × Trace)) : Facts := es.foldl (fun acc e => acc.add e.1 e.2) f

/-- The entries of one facet, their traces extended by a step. -/
def entriesOf (f : Facts) (facet : Facet) (step : Path) : List (Item × Trace) :=
  (f.only facet).items.entries.map fun e => (e.1, e.2.extend step)

/-- Adds the entries that are neither known nor excluded, one by one, and says whether there was one. -/
def learnEach (f : Facts) (excluded : Item → Bool) (es : List (Item × Trace)) : Bool × Facts :=
  es.foldl (fun acc e => if acc.2.has e.1 || excluded e.1 then acc else (true, acc.2.add e.1 e.2)) (false, f)

/-- Adds the entries that are not excluded, and says whether a facet has become larger by it. -/
def learnAll (f : Facts) (facet : Facet) (excluded : Item → Bool) (es : List (Item × Trace)) : Bool × Facts :=
  let known := f.addAll (es.filter fun e => !excluded e.1)
  (known.facetSize facet != f.facetSize facet, known)

/-- Adds the items of one facet of the other facts, their traces extended by a step, unless they are known or among
those to exclude, and says whether there was one. Constants, which have no trace to keep, are added at once. -/
def learnFacet (f other : Facts) (facet : Facet) (step : Path) (exclude : Option Facts) : Bool × Facts :=
  let excluded i := exclude.any (·.has i)
  match facet with
  | .constants => f.learnAll facet excluded (other.entriesOf facet step)
  | .texts | .inputFields | .outputFields => f.learnEach excluded (other.entriesOf facet step)

/-- Adds all items of the other facts, facet by facet, and says whether one of them was new. -/
def learn (f other : Facts) (step : Path) : Bool × Facts :=
  Facet.all.foldl (fun acc facet =>
    let (changed, known) := acc.2.learnFacet other facet step none
    (acc.1 || changed, known)) (false, f)

/-- Adds all items of the other facts, their traces extended by a step. -/
def merge (f other : Facts) (step : Path) : Facts := (f.learn other step).2

/-- Whether merging the other facts adds an item. -/
def gains (f other : Facts) : Bool := other.items.keys.any fun i => !f.has i

/-- What merging one facet of the other facts would bring, leaving out what `exclude` has. -/
def offered (other : Facts) (facet : Facet) (exclude : Facts) : Facts := (other.only facet).without exclude

/-- Adds the items of one facet of the other facts that `exclude` does not have. -/
def mergeFacet (f other : Facts) (facet : Facet) (step : Path) (exclude : Facts) : Facts :=
  (f.learnFacet other facet step (some exclude)).2

/-- Drops all traces and keeps all items. -/
def dropTraces (f : Facts) : Facts := ⟨f.items.mapValues fun _ _ => none⟩

/-- Whether two facts have the same items with the same traces, in whatever order they came. -/
def same (f g : Facts) : Bool :=
  f.items.entries.all (fun e => g.trace? e.1 == some e.2) &&
    g.items.entries.all fun e => f.trace? e.1 == some e.2

/-- The known texts, sorted. -/
def texts (f : Facts) : List (String × Trace) :=
  sortBy (fun a b => decide (a.1 ≤ b.1)) <| f.items.entries.filterMap fun
    | (.text t, tr) => some (t, tr)
    | _ => none

/-- The known constants, sorted. -/
def constants (f : Facts) : List Constant :=
  sortBy Constant.le <| f.items.keys.filterMap fun
    | .constant c => some c
    | _ => none

/-- The fields known to lead in, sorted. -/
def inputFields (f : Facts) : List (FieldSignature × Trace) :=
  sortBy (fun a b => a.1.le b.1) <| f.items.entries.filterMap fun
    | (.inputField s, tr) => some (s, tr)
    | _ => none

/-- The fields known to lead out, sorted. -/
def outputFields (f : Facts) : List (FieldSignature × Trace) :=
  sortBy (fun a b => a.1.le b.1) <| f.items.entries.filterMap fun
    | (.outputField s, tr) => some (s, tr)
    | _ => none

/-- What the two operands of an assignment get of one facet: all of it if neither operand knows anything of the facet,
and if only one of them does not, what the other one does not have, to that one alone. -/
def assignFacet (joined left right : Facts) (given : Facts × Facts) (facet : Facet) : Facts × Facts :=
  match left.lacks facet, right.lacks facet with
  | true, true => ((given.1.learnFacet joined facet [] none).2, (given.2.learnFacet joined facet [] none).2)
  | true, false => (given.1.mergeFacet joined facet [] right, given.2)
  | false, true => (given.1, given.2.mergeFacet joined facet [] left)
  | false, false => given

/-- What the two operands of an assignment get back from its result, facet by facet. -/
def assignJoin (joined left right : Facts) : Facts × Facts :=
  Facet.all.foldl (joined.assignFacet left right) (empty, empty)

/-- What the branches of a join get back from its result: the items that not all of them have. -/
def phiDelta (joined : Facts) : List Facts → Facts
  | [] => joined
  | branches => joined.filter fun i => !branches.all (·.has i)

end Facts

end SinkFlow
