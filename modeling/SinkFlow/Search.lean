import SinkFlow.Search.Splice

/-!
Field searches: which texts and constants reach a node from other entrypoints, through fields that one of
them writes and the other one reads. A search goes from level to level; a level holds the views that are as
many fields away from the start, and a view is expanded once.
-/

namespace SinkFlow

/-- The flow graphs of all analysed entrypoints. -/
abbrev Registry := Table EntrypointId FlowGraph

/-- The graphs in the order of their entrypoints. -/
def Registry.inOrder (r : Registry) : List (EntrypointId × FlowGraph) :=
  sortBy (fun a b => decide (a.1 ≤ b.1)) r.entries

/-- Which way a search goes: to where a value came from, or to where it goes. -/
inductive Direction where
  | backward
  | forward
  deriving DecidableEq, Inhabited

/-- A node that a search has come to, the trace between it and the start, and the entrypoints on the way. -/
structure SearchState where
  entrypoint : EntrypointId
  node : NodeId
  carried : Trace
  visited : List EntrypointId
  deriving DecidableEq, Inhabited

/-- Counts of one search. -/
structure SearchStats where
  states : Nat := 0
  remoteViews : Nat := 0
  deepest : Nat := 0
  deriving DecidableEq, Inhabited

/-- What a search has found so far. -/
structure Search where
  /-- Texts and constants with their traces. -/
  found : Facts
  /-- The views that have been put on a level. -/
  expanded : List (EntrypointId × NodeId)
  /-- The next level. -/
  next : List SearchState := []
  stats : SearchStats := {}
  deriving DecidableEq, Inhabited

namespace Search

/-- The fields through which a search leaves a node, with their traces, sorted. -/
def doors (direction : Direction) (facts : Facts) : List (FieldSignature × Trace) :=
  match direction with
  | .backward => facts.inputFields
  | .forward => facts.outputFields

/-- The views of a field at which a search enters another graph. -/
def entries (direction : Direction) (g : FlowGraph) (field : FieldSignature) : List NodeId :=
  match direction with
  | .backward => g.outgoingViews field
  | .forward => g.incomingViews field

/-- The trace of a fact that was found behind a field. -/
def splice (direction : Direction) (g : FlowGraph) (field : FieldSignature) (remote localTrace carried : Trace) :
    Trace :=
  match direction with
  | .backward => g.spliceBackward field remote localTrace carried
  | .forward => g.spliceForward field carried localTrace remote

/-- The trace that is carried on through a field. -/
def carry (direction : Direction) (localTrace carried : Trace) : Trace :=
  match direction with
  | .backward => Trace.join localTrace carried
  | .forward => Trace.join carried localTrace

/-- Whether an item is a text or a constant. -/
def isContent (i : Item) : Bool := i.facet = .texts || i.facet = .constants

/-- Takes over the texts and constants of a view that are not known yet. -/
def collect (s : Search) (facts : Facts) (traceOf : Trace → Trace) : Search :=
  let content := facts.items.entries.filter fun e => isContent e.1
  { s with found := content.foldl (fun acc e => acc.add e.1 (traceOf e.2)) s.found }

/-- Puts a view on the next level, unless it has been on one. -/
def enqueue (s : Search) (state : SearchState) : Search :=
  if (state.entrypoint, state.node) ∈ s.expanded then s
  else { s with expanded := s.expanded ++ [(state.entrypoint, state.node)], next := s.next ++ [state] }

/-- Enters another graph at a view of a field. -/
def enter (direction : Direction) (more : Bool) (state : SearchState) (door : FieldSignature × Trace)
    (remote : EntrypointId × FlowGraph) (s : Search) (view : NodeId) : Search :=
  match remote.2.record? view with
  | none => s
  | some record =>
    let s := { s with stats := { s.stats with remoteViews := s.stats.remoteViews + 1 } }
    let s := s.collect record.facts fun t => splice direction remote.2 door.1 t door.2 state.carried
    if more then
      s.enqueue
        { entrypoint := remote.1, node := view, carried := carry direction door.2 state.carried
          visited := state.visited ++ [remote.1] }
    else s

/-- Leaves a node through one field into every graph that is not on the way. -/
def throughDoor (graphs : List (EntrypointId × FlowGraph)) (direction : Direction) (more : Bool)
    (state : SearchState) (s : Search) (door : FieldSignature × Trace) : Search :=
  (graphs.filter fun r => r.1 ∉ state.visited).foldl
    (fun s remote => (entries direction remote.2 door.1).foldl (enter direction more state door remote) s) s

/-- Expands one node of a level; `more` says whether there is a next level. -/
def expand (registry : Registry) (direction : Direction) (more : Bool) (s : Search) (state : SearchState) : Search :=
  let s := { s with stats := { s.stats with states := s.stats.states + 1 } }
  match (registry.get? state.entrypoint).bind (·.record? state.node) with
  | none => s
  | some record =>
    (doors direction record.facts).foldl (throughDoor registry.inOrder direction more state) s

/-- Goes through at most `levels` levels, the first of which is `depth` fields away from the start. -/
def run (registry : Registry) (direction : Direction) : Nat → Nat → List SearchState → Search → Search
  | 0, _, _, s => s
  | _ + 1, _, [], s => s
  | levels + 1, depth, state :: rest, s =>
    let s := { s with next := [], stats := { s.stats with deepest := depth } }
    let s := (state :: rest).foldl (expand registry direction (0 < levels)) s
    run registry direction levels (depth + 1) s.next s

end Search

/-- Searches the other entrypoints for what reaches a node. Texts and constants that are known at the start
keep their traces. The node itself is expanded also at depth zero. -/
def Registry.search (r : Registry) (maxDepth : Nat) (entrypoint : EntrypointId) (node : NodeId)
    (direction : Direction) (known : Facts) : Facts × SearchStats :=
  let start : SearchState := { entrypoint, node, carried := some [], visited := [entrypoint] }
  let s := Search.run r direction (max 1 maxDepth) 0 [start] { found := known, expanded := [(entrypoint, node)] }
  (s.found, s.stats)

end SinkFlow
