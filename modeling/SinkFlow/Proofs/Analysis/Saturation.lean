import SinkFlow.Proofs.Analysis
import SinkFlow.Proofs.Build.Coverage
import SinkFlow.Proofs.Propagation.Closure
import SinkFlow.Proofs.Propagation.Termination

/-!
What is known at the end of an analysis without a limit. Every constant knows its literal, every view that reads a
field knows the field, and whatever is known flows along the constraints that the build left. Clearing keeps what
sink operands and views know.
-/

namespace SinkFlow

open GraphTables (SameShape)

theorem GraphTables.SameShape.inPhase {g g' : FlowGraph} (h : SameShape g g') (phase : Phase) :
    SameShape (g.inPhase phase) (g'.inPhase phase) :=
  { h with rest := congrArg (fun k : GraphTables => { k with phase }) h.rest }

namespace Propagation

open FlowGraph

/-- Constants know their literals, and go on to know them. -/
theorem literal_complete {g : FlowGraph} {n : NodeId} {l : Literal} (cap : Nat)
    (h : (g.node? n).bind Node.literal? = some l) : ((complete cap g).graph.factsAt n).has l.item :=
  (grows_seeded cap g).facts n _ ((has_seed g n _).mpr (.inr (.literal h)))

end Propagation

namespace FlowGraph

/-- A graph of the shape that was built in which all is known that follows from literals and fields. -/
structure Saturated (built g : FlowGraph) : Prop where
  shape : SameShape (built.inPhase g.phase) g
  literals : ∀ n l, (built.node? n).bind Node.literal? = some l → (g.factsAt n).has l.item
  fields : ∀ field, ∀ n ∈ built.incomingViews field, (built.node? n).isSome → (g.factsAt n).has (.inputField field)
  flows : ∀ c ∈ built.constraints, g.isOpen c.target → g.factsAt c.source ⊆ g.factsAt c.target

variable {built g g' : FlowGraph} {n m : NodeId}

theorem mem_incomingFields {field : FieldSignature} (h : n ∈ g.incomingViews field) : field ∈ g.incomingFields := by
  rw [GraphTables.incomingFields, mem_sortBy, Table.mem_keys_iff]
  cases hget : g.incoming.get? field with
  | none => simp [GraphTables.incomingViews, hget] at h
  | some views => rfl

theorem shape_collectFields {p : Program} {fields : FieldStats} (hcollect : built.collectFields p = (.ok fields, g)) :
    SameShape (built.inPhase .fieldsCollected) g := by
  rw [collectFields_eq hcollect]
  exact (grows_note built _).shape.inPhase .fieldsCollected

/-- Collecting fields and propagating change nothing but facts and the stage. -/
theorem shape_propagate {p : Program} {fields : FieldStats} {cap : Nat} {stats : PropagationStats}
    (hcollect : built.collectFields p = (.ok fields, g)) (hprop : g.propagate cap = .ok (stats, g')) :
    SameShape (built.inPhase g'.phase) g' := by
  obtain ⟨_, _, hg'⟩ := propagate_eq_ok_iff.mp hprop
  rw [hg']
  exact ((shape_collectFields hcollect).trans (Propagation.grows_complete cap g).shape).inPhase .propagated

/-- Collecting fields and propagating without a limit saturates a graph in which nothing was known. -/
theorem saturated_propagate {p : Program} {fields : FieldStats} {stats : PropagationStats}
    (hblank : ∀ n i, (built.factsAt n).has i = false) (hcollect : built.collectFields p = (.ok fields, g))
    (hprop : g.propagate 0 = .ok (stats, g')) : Saturated built g' := by
  have hawaited := awaited_collectFields hblank hcollect
  have hg := collectFields_eq hcollect
  obtain ⟨_, hstats, hg'⟩ := propagate_eq_ok_iff.mp hprop
  have htruncated : stats.truncated = false := hstats ▸ Propagation.complete_truncated g
  have hgrows := Propagation.grows_complete 0 g
  have hcollected := shape_collectFields hcollect
  have hshape := shape_propagate hcollect hprop
  have hfacts : ∀ n, g'.factsAt n = (Propagation.complete 0 g).graph.factsAt n := by
    intro n
    rw [hg', factsAt_inPhase]
  refine ⟨hshape, ?_, ?_, ?_⟩
  · intro n l hl
    rw [hfacts]
    exact Propagation.literal_complete 0 (hcollected.node? n ▸ hl)
  · intro field n hn hnode
    rw [hfacts]
    refine hgrows.facts n _ ?_
    have hnote : (n, .inputField field, some []) ∈ fieldNotes p built := by
      simp only [fieldNotes, List.mem_append, List.mem_flatMap]
      exact .inl (.inl ⟨field, mem_incomingFields hn, List.mem_map_of_mem hn⟩)
    rw [hg, factsAt_inPhase]
    exact has_note hnode hnote
  · intro c hc hopen i hi
    have hserved := served_propagate hawaited hprop htruncated hi
    refine hserved.forward c (mem_constraintsFrom.mpr ⟨?_, rfl⟩) hopen
    rw [hshape.constraints]
    exact hc

namespace Saturated

theorem isOpen (h : Saturated built g) (hn : built.isOpen n) : g.isOpen n := (h.shape.isOpen n).trans hn

/-- What is known at a node is known at every node that can learn and is related to it. -/
theorem related (h : Saturated built g) {kind : ConstraintKind} (hr : built.Related n kind m) (hn : built.isOpen n) :
    g.factsAt m ⊆ g.factsAt n := by
  rcases hr with rfl | ⟨path, hc⟩
  · exact fun _ hi => hi
  · exact h.flows ⟨n, kind, m, path⟩ hc (h.isOpen hn)

/-- What a sink operand or a view knows is in its record after clearing. -/
theorem record_clear {cleared : FlowGraph} {i : Item} (h : Saturated built g) (hclear : g.clear = .ok cleared)
    (hkept : built.isKept n) (hi : (g.factsAt n).has i) : ∃ r, cleared.record? n = some r ∧ r.facts.has i := by
  have hfacts := factsAt_clear hclear n
  rw [(h.shape.isKept n).trans hkept, if_pos rfl] at hfacts
  rw [← hfacts] at hi
  cases hr : cleared.record? n with
  | none => simp [GraphTables.factsAt, hr] at hi
  | some r => exact ⟨r, rfl, GraphTables.factsAt_of_record? hr ▸ hi⟩

end Saturated

end FlowGraph

end SinkFlow
