import SinkFlow.Flow.Graph
import SinkFlow.Proofs.Fact.Learning

/-!
What a change of the facts at one node does to a flow graph: it leaves the shape of the graph alone, that is
everything but the facts, and it leaves the facts of all other nodes alone.
-/

namespace SinkFlow

namespace GraphTables

variable {g g' g'' : GraphTables} {n m : NodeId}

/-! ## Looking up -/

theorem factsAt_congr (h : g'.records = g.records) (n : NodeId) : g'.factsAt n = g.factsAt n := by
  simp only [factsAt, record?, h]

theorem node?_isSome_iff : (g.node? n).isSome ↔ n < g.nodes.size := by
  simp [node?]

theorem record?_isSome_of_has {i : Item} (h : (g.factsAt n).has i) : (g.record? n).isSome := by
  cases hr : g.record? n with
  | none => simp [factsAt, hr] at h
  | some r => rfl

theorem factsAt_of_record? {r : NodeRecord} (h : g.record? n = some r) : g.factsAt n = r.facts := by
  simp [factsAt, h]

theorem factsAt_of_record?_eq_none (h : g.record? n = none) : g.factsAt n = .empty := by
  simp [factsAt, h]

theorem forwardIds_of_record? {r : NodeRecord} (hr : g.record? n = some r) : g.forwardIds n = r.forward := by
  simp [forwardIds, hr]

theorem backwardIds_of_record? {r : NodeRecord} (hr : g.record? n = some r) : g.backwardIds n = r.backward := by
  simp [backwardIds, hr]

theorem recorded_eq (g : GraphTables) : g.recorded = (List.range g.records.size).filterMap g.record? := by
  have hslots := filterMap_range g.records.toList
  simp only [Array.length_toList, Array.getElem?_toList] at hslots
  rw [recorded, ← hslots, List.filterMap_filterMap]
  rfl

theorem node?_isSome_of_isOpen (h : g.isOpen n) : (g.node? n).isSome := by
  cases hn : g.node? n with
  | none => simp [isOpen, hn] at h
  | some v => rfl

/-- Whether a node keeps its traces to the end: it is there, and a field or a sink operand. -/
def isKept (g : GraphTables) (n : NodeId) : Bool := (g.node? n).any Node.isRetained

/-! ## Editing the facts of a node -/

theorem record?_editFacts (g : GraphTables) (n : NodeId) (edit : Facts → Facts) (m : NodeId)
    (h : (g.record? m).isSome) : ((g.editFacts n edit).record? m).isSome := by
  rw [editFacts, record?_editRecord]
  split
  · rfl
  · exact h

/-! ## Shape -/

/-- Two graphs that differ in nothing but the facts at their nodes. -/
structure SameShape (g g' : GraphTables) : Prop where
  rest : { g' with records := g.records } = g
  size : g'.records.size = g.records.size
  forward : ∀ n, g'.forwardIds n = g.forwardIds n
  backward : ∀ n, g'.backwardIds n = g.backwardIds n
  chainsAt : ∀ n, g'.chainsAt n = g.chainsAt n

namespace SameShape

theorem refl (g : GraphTables) : SameShape g g := ⟨rfl, rfl, fun _ => rfl, fun _ => rfl, fun _ => rfl⟩

theorem trans (h : SameShape g g') (h' : SameShape g' g'') : SameShape g g'' where
  rest := by
    have hr := congrArg (fun k : GraphTables => { k with records := g.records }) h'.rest
    exact hr.trans h.rest
  size := h'.size.trans h.size
  forward n := (h'.forward n).trans (h.forward n)
  backward n := (h'.backward n).trans (h.backward n)
  chainsAt n := (h'.chainsAt n).trans (h.chainsAt n)

theorem editFacts (g : GraphTables) (n : NodeId) (edit : Facts → Facts) : SameShape g (g.editFacts n edit) where
  rest := rfl
  size := Array.size_modify ..
  forward := forwardIds_editRecord_of_eq g n _ fun _ => rfl
  backward := backwardIds_editRecord_of_eq g n _ fun _ => rfl
  chainsAt m := by
    rw [GraphTables.chainsAt, GraphTables.editFacts, record?_editRecord]
    split
    · cases hr : g.record? m <;> simp [GraphTables.chainsAt, hr]
    · rfl

theorem nodes (h : SameShape g g') : g'.nodes = g.nodes := by
  have hn := congrArg GraphTables.nodes h.rest
  exact hn

theorem constraints (h : SameShape g g') : g'.constraints = g.constraints := by
  have hc := congrArg GraphTables.constraints h.rest
  exact hc

theorem chains (h : SameShape g g') : g'.chains = g.chains := by
  have hc := congrArg GraphTables.chains h.rest
  exact hc

theorem phase (h : SameShape g g') : g'.phase = g.phase := by
  have hp := congrArg GraphTables.phase h.rest
  exact hp

theorem entrypoint (h : SameShape g g') : g'.entrypoint = g.entrypoint := by
  have he := congrArg GraphTables.entrypoint h.rest
  exact he

theorem incoming (h : SameShape g g') : g'.incoming = g.incoming := by
  have hi := congrArg GraphTables.incoming h.rest
  exact hi

theorem outgoing (h : SameShape g g') : g'.outgoing = g.outgoing := by
  have ho := congrArg GraphTables.outgoing h.rest
  exact ho

theorem sinks (h : SameShape g g') : g'.sinks = g.sinks := by
  have hs := congrArg GraphTables.sinks h.rest
  exact hs

theorem constraintsFrom (h : SameShape g g') (n : NodeId) : g'.constraintsFrom n = g.constraintsFrom n := by
  simp only [GraphTables.constraintsFrom, h.forward, constraint?_congr h.constraints]

theorem constraintsInto (h : SameShape g g') (n : NodeId) : g'.constraintsInto n = g.constraintsInto n := by
  simp only [GraphTables.constraintsInto, h.backward, constraint?_congr h.constraints]

theorem node? (h : SameShape g g') (n : NodeId) : g'.node? n = g.node? n := by
  simp only [GraphTables.node?, h.nodes]

theorem node?_isSome (h : SameShape g g') (n : NodeId) : (g'.node? n).isSome = (g.node? n).isSome := by
  rw [h.node?]

theorem isOpen (h : SameShape g g') (n : NodeId) : g'.isOpen n = g.isOpen n := by
  rw [GraphTables.isOpen, h.node?, GraphTables.isOpen]

theorem isKept (h : SameShape g g') (n : NodeId) : g'.isKept n = g.isKept n := by
  rw [GraphTables.isKept, h.node?, GraphTables.isKept]

end SameShape

end GraphTables

namespace FlowGraph

open GraphTables (SameShape)

variable {g g' g'' : FlowGraph} {n m : NodeId}

/-! ## Constraints of a node -/

theorem constraintsFrom_eq (g : FlowGraph) (n : NodeId) :
    g.constraintsFrom n = g.constraints.toList.filter (·.source = n) := by
  rw [GraphTables.constraintsFrom, g.inStep.forward, GraphTables.filterMap_positions]

theorem constraintsInto_eq (g : FlowGraph) (n : NodeId) :
    g.constraintsInto n = g.constraints.toList.filter (Constraint.carriesBack n) := by
  rw [GraphTables.constraintsInto, g.inStep.backward, GraphTables.filterMap_positions]

theorem mem_constraintsFrom {c : Constraint} : c ∈ g.constraintsFrom n ↔ c ∈ g.constraints ∧ c.source = n := by
  simp [constraintsFrom_eq]

theorem mem_constraintsInto {c : Constraint} :
    c ∈ g.constraintsInto n ↔ c ∈ g.constraints ∧ c.target = n ∧ c.kind.isBidirectional := by
  simp [constraintsInto_eq, Constraint.carriesBack]

/-! ## Records -/

theorem record?_eq_none (h : g.node? n = none) : g.record? n = none := by
  have hsize : g.records.size ≤ n := g.inStep.size.symm ▸ (by simpa [GraphTables.node?] using h)
  simp [GraphTables.record?, hsize]

theorem node?_isSome_of_record? (h : (g.record? n).isSome) : (g.node? n).isSome := by
  cases hn : g.node? n with
  | none => simp [record?_eq_none hn] at h
  | some v => rfl

theorem node?_isSome_of_has {i : Item} (h : (g.factsAt n).has i) : (g.node? n).isSome :=
  node?_isSome_of_record? (GraphTables.record?_isSome_of_has h)

theorem mem_recorded {r : NodeRecord} : r ∈ g.recorded ↔ g.record? r.node = some r := by
  rw [GraphTables.recorded_eq, List.mem_filterMap]
  constructor
  · rintro ⟨n, _, hr⟩
    rwa [g.inStep.holders n r hr]
  · intro hr
    have hnode := GraphTables.node?_isSome_iff.mp (node?_isSome_of_record? (Option.isSome_of_eq_some hr))
    exact ⟨r.node, List.mem_range.mpr (g.inStep.size ▸ hnode), hr⟩

theorem mem_recorded_of_record? {r : NodeRecord} (h : g.record? n = some r) : r ∈ g.recorded :=
  mem_recorded.mpr (g.inStep.holders n r h ▸ h)

/-- If all records are blank, nothing is known anywhere. -/
theorem factsAt_eq_empty (h : ∀ r ∈ g.recorded, r.facts = .empty) (n : NodeId) : g.factsAt n = .empty := by
  cases hr : g.record? n with
  | none => exact GraphTables.factsAt_of_record?_eq_none hr
  | some r => rw [GraphTables.factsAt_of_record? hr, h r (mem_recorded_of_record? hr)]

/-- The nodes of the records that pass a test, by position. -/
theorem map_node_recorded (g : FlowGraph) (p : NodeRecord → Bool) :
    (g.recorded.filter p).map NodeRecord.node =
      (List.range g.nodes.size).filter fun n => (g.record? n).any p := by
  rw [GraphTables.recorded_eq, g.inStep.size, List.filter_filterMap, List.map_filterMap, ← List.filterMap_eq_filter]
  congr 1
  funext n
  cases hr : g.record? n with
  | none => simp [Option.guard, hr]
  | some r =>
      have hnode := g.inStep.holders n r hr
      cases hp : p r <;> simp [Option.guard, Option.filter, hp, hr, hnode]

/-- Nodes are numbered by position. -/
theorem map_id_nodes (g : FlowGraph) : g.nodes.toList.map Node.id = List.range g.nodes.size := by
  apply List.ext_getElem?
  intro n
  cases hv : g.nodes[n]? with
  | none =>
      have hsize : g.nodes.size ≤ n := by simpa using hv
      simp [hsize]
  | some v =>
      have hlt : n < g.nodes.size := (Array.getElem?_eq_some_iff.mp hv).1
      rw [List.getElem?_map, Array.getElem?_toList, hv, List.getElem?_range hlt, Option.map_some, g.inStep.ids n v hv]

/-! ## Stages -/

/-- The graph at another stage. -/
def inPhase (g : FlowGraph) (phase : Phase) : FlowGraph := ⟨{ g.toGraphTables with phase }, { g.inStep with }⟩

@[simp] theorem phase_inPhase (g : FlowGraph) (phase : Phase) : (g.inPhase phase).phase = phase := rfl

@[simp] theorem record?_inPhase (g : FlowGraph) (phase : Phase) (n : NodeId) :
    (g.inPhase phase).record? n = g.record? n := rfl

@[simp] theorem factsAt_inPhase (g : FlowGraph) (phase : Phase) (n : NodeId) :
    (g.inPhase phase).factsAt n = g.factsAt n := rfl

theorem advance_eq_ok_iff {before after : Phase} :
    g.advance before after = .ok g' ↔ g.phase = before ∧ g' = g.inPhase after := by
  rw [advance, updated_eq_ok_iff, GraphTables.advance_eq_ok_iff]
  exact and_congr_right fun _ => ⟨fun h => eq_of_tables h, congrArg toGraphTables⟩

theorem clear_eq_ok_iff : g.clear = .ok g' ↔ g.phase = .propagated ∧ g' = g.cleared := by
  rw [clear, updated_eq_ok_iff, GraphTables.clear_eq_ok_iff]
  exact and_congr_right fun _ => ⟨fun h => eq_of_tables h, congrArg toGraphTables⟩

theorem record?_clear (h : g.clear = .ok g') (n : NodeId) :
    g'.record? n = if g.isKept n then (g.record? n).map NodeRecord.stripped else none := by
  obtain ⟨_, rfl⟩ := clear_eq_ok_iff.mp h
  exact GraphTables.record?_cleared g n

/-- Clearing leaves what fields and sink operands know, and nothing else. -/
theorem factsAt_clear (h : g.clear = .ok g') (n : NodeId) :
    g'.factsAt n = if g.isKept n then g.factsAt n else .empty := by
  simp only [GraphTables.factsAt, record?_clear h]
  split
  · cases g.record? n <;> rfl
  · rfl

/-! ## Editing the facts of a node -/

/-- An edit changes the facts of its node only, if that is there. -/
theorem factsAt_editFacts (g : FlowGraph) (n : NodeId) (edit : Facts → Facts) (m : NodeId) :
    (g.editFacts n edit).factsAt m =
      if n = m ∧ (g.node? m).isSome then edit (g.factsAt m) else g.factsAt m := by
  have hsize := g.inStep.size
  show (g.toGraphTables.editFacts n edit).factsAt m = _
  rw [GraphTables.factsAt, GraphTables.editFacts, GraphTables.record?_editRecord]
  simp only [GraphTables.node?_isSome_iff, hsize]
  split
  · cases hr : g.record? m <;> simp [GraphTables.factsAt, hr]
  · rfl

theorem factsAt_editFacts_of_ne (edit : Facts → Facts) (h : n ≠ m) :
    (g.editFacts n edit).factsAt m = g.factsAt m := by
  simp [factsAt_editFacts, h]

theorem factsAt_editFacts_self (edit : Facts → Facts) (h : (g.node? n).isSome) :
    (g.editFacts n edit).factsAt n = edit (g.factsAt n) := by
  simp [factsAt_editFacts, h]

/-! ## Growth -/

/-- A graph of the same shape in which every node knows at least as much, and still has its record. -/
structure Grows (g g' : FlowGraph) : Prop where
  shape : SameShape g g'
  facts : ∀ n, g.factsAt n ⊆ g'.factsAt n
  records : ∀ n, (g.record? n).isSome → (g'.record? n).isSome

namespace Grows

theorem refl (g : FlowGraph) : Grows g g := ⟨.refl g, fun _ _ h => h, fun _ h => h⟩

theorem trans (h : Grows g g') (h' : Grows g' g'') : Grows g g'' :=
  ⟨h.shape.trans h'.shape, fun n i hi => h'.facts n i (h.facts n i hi), fun n hn => h'.records n (h.records n hn)⟩

theorem editFacts (n : NodeId) (edit : Facts → Facts) (h : g.factsAt n ⊆ edit (g.factsAt n)) :
    Grows g (g.editFacts n edit) where
  shape := .editFacts g n edit
  facts m := by
    intro i hi
    rw [factsAt_editFacts]
    split
    · rename_i hm
      obtain ⟨rfl, _⟩ := hm
      exact h i hi
    · exact hi
  records := GraphTables.record?_editFacts g n edit

theorem lacks (h : Grows g g') {facet : Facet} (hl : (g'.factsAt n).lacks facet) : (g.factsAt n).lacks facet :=
  Facts.lacks_mono (h.facts n) hl

end Grows

end FlowGraph

end SinkFlow
