import SinkFlow.Flow.Graph
import SinkFlow.Propagation.Worklist

/-!
Propagation: facts are handed along constraints until nothing changes. The first pass hands them from
sources to targets. The second one also hands them back, by a rule for each kind of constraint, and drops
the traces of a node that is neither a field nor a sink operand once it has been served.
-/

namespace SinkFlow

/-- Counts of one propagation. -/
structure PropagationStats where
  /-- Nodes that wait at the start for their literal or their fields. -/
  seeded : Nat := 0
  /-- Names of appended values that were new to their node. -/
  appendNames : Nat := 0
  pass1Pops : Nat := 0
  pass2Seeded : Nat := 0
  pass2Pops : Nat := 0
  /-- Merges that added something. -/
  merges : Nat := 0
  /-- Turns of a node that is the target of more than two assignments. -/
  skippedAssignJoins : Nat := 0
  /-- Whether a pass was stopped at the limit. -/
  truncated : Bool := false
  deriving DecidableEq, Inhabited

/-- The state of a propagation. -/
structure Propagation where
  graph : FlowGraph
  worklist : Worklist := .empty
  stats : PropagationStats := {}
  deriving DecidableEq, Inhabited

namespace Propagation

/-- Lets a node wait and counts it if it did not. -/
def seedNode (s : Propagation) (n : NodeId) : Propagation :=
  let new := if s.worklist.accepts n then 1 else 0
  { s with worklist := s.worklist.push n, stats := { s.stats with seeded := s.stats.seeded + new } }

/-- Gives a constant node its literal. -/
def seedConstant (s : Propagation) (n : NodeId) : Propagation :=
  match (s.graph.node? n).bind Node.literal? with
  | some l => { s with graph := s.graph.editFacts n (·.addLiteral l) }.seedNode n
  | none => s

/-- Gives an appended node the name in front of it. -/
def seedName (s : Propagation) (name : AppendName) : Propagation :=
  if (s.graph.node? name.node).isSome then
    let item := Item.text name.name
    let new := !(s.graph.factsAt name.node).has item
    let graph := s.graph.editFacts name.node (·.add item (some [name.statement]))
    if new then
      { s with
        graph
        worklist := s.worklist.push name.node
        stats := { s.stats with appendNames := s.stats.appendNames + 1 } }
    else { s with graph }
  else s

/-- The nodes that know a field, by position. -/
def fieldNodes (g : FlowGraph) : List NodeId := (g.recorded.filter (·.facts.hasFields)).map NodeRecord.node

/-- Starts the first pass: literals, then fields, then names of appended values. -/
def seed (s : Propagation) : Propagation :=
  let s := (s.graph.nodes.toList.map Node.id).foldl seedConstant s
  let s := (fieldNodes s.graph).foldl seedNode s
  (s.graph.chains.toList.flatMap AppendChain.names).foldl seedName s

/-- Adds facts to a node that can learn, and lets it wait if some were new. -/
def absorb (s : Propagation) (target : NodeId) (facts : Facts) (step : Path) : Propagation :=
  if s.graph.isOpen target then
    let gained := ((s.graph.factsAt target).learn facts step).1
    let graph := s.graph.editFacts target (·.merge facts step)
    if gained then
      { graph
        worklist := s.worklist.push target
        stats := { s.stats with merges := s.stats.merges + 1 } }
    else { s with graph }
  else s

/-- Hands facts back to a node, if there are any. -/
def handBack (s : Propagation) (target : NodeId) (facts : Facts) (step : Path) : Propagation :=
  if facts.isEmpty then s else s.absorb target facts step

/-- Hands the facts of a node to the targets of its constraints. -/
def forwardStep (s : Propagation) (n : NodeId) : Propagation :=
  let facts := s.graph.factsAt n
  (s.graph.constraintsFrom n).foldl (fun s c => s.absorb c.target facts c.path) s

/-- Hands facts back over one constraint whose kind asks for nothing else: always over equalities and
correlations, over an append only while its source knows no text. -/
def backwardOver (joined : Facts) (s : Propagation) (c : Constraint) : Propagation :=
  match c.kind with
  | .eq | .ge => s.handBack c.source joined c.path
  | .geAppend => if (s.graph.factsAt c.source).lacks .texts then s.handBack c.source joined c.path else s
  | .geAssign | .gePhi | .geUnidirectional => s

/-- Hands facts back to the operands of assignments: all to a single one, and between two what each lacks. -/
def backwardAssign (joined : Facts) (s : Propagation) : List Constraint → Propagation
  | [] => s
  | [c] => s.handBack c.source joined c.path
  | [l, r] =>
    let shares := joined.assignJoin (s.graph.factsAt l.source) (s.graph.factsAt r.source)
    (s.handBack l.source shares.1 l.path).handBack r.source shares.2 r.path
  | _ => { s with stats := { s.stats with skippedAssignJoins := s.stats.skippedAssignJoins + 1 } }

/-- Hands facts back to the branches of joins: what not all of them know. -/
def backwardPhi (joined : Facts) (s : Propagation) (phis : List Constraint) : Propagation :=
  if phis.isEmpty then s
  else
    let delta := joined.phiDelta (phis.map fun c => s.graph.factsAt c.source)
    phis.foldl (fun s c => s.handBack c.source delta c.path) s

/-- Hands the facts of a node back to the sources of its constraints. -/
def backwardStep (s : Propagation) (n : NodeId) : Propagation :=
  let joined := s.graph.factsAt n
  let constraints := s.graph.constraintsInto n
  let s := constraints.foldl (backwardOver joined) s
  let s := backwardAssign joined s (constraints.filter (·.kind = .geAssign))
  backwardPhi joined s (constraints.filter (·.kind = .gePhi))

/-- Drops the traces of a node that is neither a field nor a sink operand. -/
def settle (s : Propagation) (n : NodeId) : Propagation :=
  if (s.graph.node? n).any fun v => !v.isRetained then { s with graph := s.graph.editFacts n (·.dropTraces) } else s

/-- One turn of a node in the first pass. -/
def forwardTurn (s : Propagation) (n : NodeId) : Propagation :=
  { s with stats := { s.stats with pass1Pops := s.stats.pass1Pops + 1 } }.forwardStep n

/-- One turn of a node in the second pass. -/
def combinedTurn (s : Propagation) (n : NodeId) : Propagation :=
  let s := { s with stats := { s.stats with pass2Pops := s.stats.pass2Pops + 1 } }
  ((s.backwardStep n).forwardStep n).settle n

/-- Gives waiting nodes their turns, at most `limit` of them. A node that still waits then makes the
propagation a truncated one. -/
def drain (turn : Propagation → NodeId → Propagation) : Nat → Propagation → Propagation
  | 0, s => if s.worklist.isEmpty then s else { s with stats := { s.stats with truncated := true } }
  | limit + 1, s =>
    match s.worklist.pop with
    | none => s
    | some (n, rest) => drain turn limit (turn { s with worklist := rest } n)

/-- Starts the second pass: every node that knows something and is the target of a constraint. -/
def reseed (s : Propagation) : Propagation :=
  let start := (s.graph.recorded.filter fun r => !r.backward.isEmpty && !r.facts.isEmpty).map NodeRecord.node
  { s with
    worklist := start.foldl Worklist.push .empty
    stats := { s.stats with pass2Seeded := start.length } }

/-- The number of items known at all nodes together. -/
def itemCount (g : FlowGraph) : Nat := g.recorded.foldl (fun n r => n + r.facts.size) 0

/-- How many turns a pass may take. Without a limit of its own it gets as many as it can need: every turn
follows a seed or an item that was new to a node. -/
def turnLimit (cap : Nat) (g : FlowGraph) : Nat := if cap = 0 then g.nodes.size * (itemCount g + 1) else cap

/-- Both passes, on a graph whose fields have been collected. -/
def complete (cap : Nat) (g : FlowGraph) : Propagation :=
  let s := Propagation.seed { graph := g }
  let limit := turnLimit cap s.graph
  drain combinedTurn limit (drain forwardTurn limit s).reseed

end Propagation

/-- Propagates facts through a graph whose fields have been collected; `cap` limits the turns of each pass
unless it is zero. -/
def FlowGraph.propagate (g : FlowGraph) (cap : Nat) : Except AnalysisError (PropagationStats × FlowGraph) := do
  g.expect .fieldsCollected
  let s := Propagation.complete cap g
  return (s.stats, ← s.graph.finishPropagation)

end SinkFlow
