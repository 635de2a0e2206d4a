import SinkFlow.Proofs.Flow.Operation
import SinkFlow.Proofs.Propagation.Run

/-!
What a propagation leaves alone. It changes facts and the stage and makes records that list nothing, and that is all.
Facts that were known stay known with the trace that they had, unless their node is neither a field nor a sink operand:
there the trace may be dropped.
-/

namespace SinkFlow

namespace FlowGraph

open GraphTables (SameShape)

variable {g g' g'' : FlowGraph} {n : NodeId} {i : Item} {t : Trace}

/-! ## Keeping traces -/

/-- Facts of one graph as they may have become in another one of the same shape. -/
structure KeepsTraces (g g' : FlowGraph) : Prop where
  shape : SameShape g g'
  traces : ∀ n i t, (g.factsAt n).trace? i = some t →
    (g'.factsAt n).trace? i = some t ∨ (g'.factsAt n).trace? i = some none ∧ (g.node? n).any fun v => !v.isRetained

namespace KeepsTraces

theorem refl (g : FlowGraph) : KeepsTraces g g := ⟨.refl g, fun _ _ _ h => .inl h⟩

theorem trans (h : KeepsTraces g g') (h' : KeepsTraces g' g'') : KeepsTraces g g'' where
  shape := h.shape.trans h'.shape
  traces n i t ht := by
    rcases h.traces n i t ht with ht | ⟨ht, hn⟩
    · rw [← h.shape.node?]
      exact h'.traces n i t ht
    · rcases h'.traces n i none ht with ht | ⟨ht, _⟩
      · exact .inr ⟨ht, hn⟩
      · exact .inr ⟨ht, hn⟩

/-- An edit that keeps the traces of its node keeps those of all nodes. -/
theorem editFacts (n : NodeId) {edit : Facts → Facts}
    (h : ∀ i t, (g.factsAt n).trace? i = some t → (edit (g.factsAt n)).trace? i = some t) :
    KeepsTraces g (g.editFacts n edit) where
  shape := .editFacts g n edit
  traces m i t ht := by
    left
    rw [factsAt_editFacts]
    split
    · rename_i hm
      obtain ⟨rfl, _⟩ := hm
      exact h i t ht
    · exact ht

theorem add (n : NodeId) (i : Item) (t : Trace) : KeepsTraces g (g.editFacts n (·.add i t)) := by
  apply editFacts
  intro j u hu
  rw [Facts.trace?_add, hu]
  rfl

theorem merge (n : NodeId) (other : Facts) (step : Path) : KeepsTraces g (g.editFacts n (·.merge other step)) := by
  apply editFacts
  intro j u hu
  rw [Facts.trace?_merge, hu]
  rfl

end KeepsTraces

end FlowGraph

namespace Propagation

open FlowGraph

variable {s s' : Propagation} {n : NodeId} {g : FlowGraph}

/-! ## Seeding -/

theorem foldl_keepsTraces {α : Type} {f : Propagation → α → Propagation}
    (keeps : ∀ s a, KeepsTraces s.graph (f s a).graph) (as : List α) (s : Propagation) :
    KeepsTraces s.graph (as.foldl f s).graph := by
  induction as generalizing s with
  | nil => exact .refl _
  | cons a as ih => exact (keeps s a).trans (ih (f s a))

theorem keepsTraces_seedConstant (s : Propagation) (n : NodeId) : KeepsTraces s.graph (s.seedConstant n).graph := by
  rcases seedConstant_cases s n with ⟨_, h⟩ | ⟨l, _, h⟩
  · rw [h]
    exact .refl _
  · rw [h]
    exact .add n l.item l.trace

theorem keepsTraces_seedName (s : Propagation) (name : AppendName) : KeepsTraces s.graph (s.seedName name).graph := by
  rcases seedName_cases s name with h | ⟨h, _⟩
  · rw [h]
    exact .refl _
  · rw [h]
    exact .add _ _ _

theorem keepsTraces_seed (g : FlowGraph) : KeepsTraces g (seed { graph := g }).graph := by
  have hconstants : KeepsTraces g (withConstants g).graph := foldl_keepsTraces keepsTraces_seedConstant _ { graph := g }
  rw [← graph_withFields] at hconstants
  rw [seed_eq]
  exact hconstants.trans (foldl_keepsTraces keepsTraces_seedName _ _)

/-! ## Turns -/

theorem keepsTraces_absorb (s : Propagation) (m : NodeId) (facts : Facts) (step : Path) :
    KeepsTraces s.graph (s.absorb m facts step).graph := by
  rw [graph_absorb]
  split
  · exact .merge m facts step
  · exact .refl _

theorem Handout.keepsTraces (h : Handout s n s') : KeepsTraces s.graph s'.graph := by
  induction h with
  | start => exact .refl _
  | hand _ _ _ _ ih => exact ih.trans (keepsTraces_absorb _ _ _ _)
  | skip _ ih => exact ih

/-- Only here traces are dropped, and only at a node that is neither a field nor a sink operand. -/
theorem keepsTraces_settle (s : Propagation) (n : NodeId) : KeepsTraces s.graph (s.settle n).graph where
  shape := (grows_settle s n).shape
  traces k i t ht := by
    rw [trace?_settle]
    split
    · rename_i hk
      obtain ⟨rfl, hdropped⟩ := hk
      rw [ht]
      exact .inr ⟨rfl, hdropped⟩
    · exact .inl ht

theorem keepsTraces_complete (cap : Nat) (g : FlowGraph) : KeepsTraces g (complete cap g).graph := by
  apply complete_keeps (P := KeepsTraces g)
  · intro s n s' h hs
    exact hs.trans h.keepsTraces
  · intro s n _ hs
    exact hs.trans (keepsTraces_settle s n)
  · exact keepsTraces_seed g

end Propagation

namespace FlowGraph

open GraphTables

variable {g g' : FlowGraph} {n : NodeId} {r : NodeRecord}

/-! ## Records -/

/-- A record that is there stays, and goes on to list the same constraints and chains. -/
theorem Grows.exists_record? (h : Grows g g') (hr : g.record? n = some r) :
    ∃ r', g'.record? n = some r' ∧ { r' with facts := r.facts } = r := by
  obtain ⟨r', hr'⟩ := Option.isSome_iff_exists.mp (h.records n (Option.isSome_of_eq_some hr))
  have hnode : r'.node = r.node := (g'.inStep.holders n r' hr').trans (g.inStep.holders n r hr).symm
  have hforward := h.shape.forward n
  have hbackward := h.shape.backward n
  have hchains := h.shape.chainsAt n
  rw [forwardIds_of_record? hr, forwardIds_of_record? hr'] at hforward
  rw [backwardIds_of_record? hr, backwardIds_of_record? hr'] at hbackward
  rw [chainsAt, chainsAt, hr, hr'] at hchains
  refine ⟨r', hr', ?_⟩
  rw [NodeRecord.mk.injEq]
  exact ⟨hnode, rfl, hforward, hbackward, hchains⟩

/-- A record that was made lists nothing. -/
theorem Grows.record_made (h : Grows g g') (hnone : g.record? n = none) (hr : g'.record? n = some r) :
    r = { node := n, facts := r.facts } := by
  have hnode := g'.inStep.holders n r hr
  have hforward := h.shape.forward n
  have hbackward := h.shape.backward n
  have hchains := h.shape.chainsAt n
  rw [forwardIds_of_record? hr, forwardIds, hnone] at hforward
  rw [backwardIds_of_record? hr, backwardIds, hnone] at hbackward
  rw [chainsAt, chainsAt, hnone, hr] at hchains
  rw [NodeRecord.mk.injEq]
  exact ⟨hnode, rfl, hforward, hbackward, hchains⟩

/-! ## The frame -/

/-- A graph after a propagation against what it was before: all but records and stage are the same. -/
structure PropagatedFrom (g g' : FlowGraph) : Prop where
  rest : { g'.toGraphTables with phase := g.phase, records := g.records } = g.toGraphTables
  phase : g'.phase = .propagated
  size : g'.records.size = g.records.size
  /-- No record is lost, and it goes on to list the same constraints and chains. -/
  records : ∀ n r, g.record? n = some r → ∃ r', g'.record? n = some r' ∧ { r' with facts := r.facts } = r
  /-- A record that was made lists nothing. -/
  made : ∀ n r, g.record? n = none → g'.record? n = some r → r = { node := n, facts := r.facts }
  facts : ∀ n i t, (g.factsAt n).trace? i = some t →
    (g'.factsAt n).trace? i = some t ∨
      (g'.factsAt n).trace? i = some none ∧ ∃ v, g.node? n = some v ∧ v.isField = false ∧ v.special = false

theorem PropagatedFrom.of_keeps (hgrows : Grows g g') (hkeeps : KeepsTraces g g') :
    PropagatedFrom g (g'.inPhase .propagated) where
  rest := congrArg (fun k : GraphTables => { k with phase := g.phase }) hgrows.shape.rest
  phase := rfl
  size := hgrows.shape.size
  records n r hr := hgrows.exists_record? hr
  made n r hnone hr := hgrows.record_made hnone hr
  facts n i t ht := by
    apply (hkeeps.traces n i t ht).imp_right
    rintro ⟨hdropped, hn⟩
    obtain ⟨v, hv, hretained⟩ := Option.any_eq_true _ _ |>.mp hn
    simp only [Node.isRetained, Bool.not_eq_true', Bool.or_eq_false_iff] at hretained
    exact ⟨hdropped, v, hv, hretained⟩

/-- The fields of a graph having been collected, it can be propagated, whatever the limit, and nothing changes but the
stage and the facts. -/
theorem propagate_frame {g : FlowGraph} (hphase : g.phase = .fieldsCollected) (cap : Nat) :
    ∃ stats g', g.propagate cap = .ok (stats, g') ∧ PropagatedFrom g g' :=
  ⟨_, _, propagate_eq_ok_iff.mpr ⟨hphase, rfl, rfl⟩,
    .of_keeps (Propagation.grows_complete cap g) (Propagation.keepsTraces_complete cap g)⟩

/-- A graph as its operations make it: a text that flows into a view of a field, and from there into a value that has no
record yet. -/
def storedGraph : FlowGraph :=
  .after 0
    [.beginBuilding, .valueNode 0 0 (some (.text "secret")), .valueNode 0 1 none, .staticView 0 ⟨"app.Store", "text"⟩,
      .addConstraint 2 .eq 0 [⟨0, 1⟩], .addConstraint 1 .geUnidirectional 2 [⟨0, 2⟩],
      .registerIncoming ⟨"app.Store", "text"⟩ 2, .editFacts 2 (·.add (.inputField ⟨"app.Store", "text"⟩) (some [])),
      .finishFields]

theorem storedGraph_frame :
    storedGraph.phase = .fieldsCollected ∧ storedGraph.record? 1 = none ∧
      ∃ stats g', storedGraph.propagate 1 = .ok (stats, g') ∧ PropagatedFrom storedGraph g' ∧
        (g'.factsAt 2).trace? (.inputField ⟨"app.Store", "text"⟩) = some (some []) := by
  obtain ⟨stats, g', hprop, hframe⟩ := propagate_frame (g := storedGraph) rfl 1
  refine ⟨rfl, by decide +kernel, stats, g', hprop, hframe, ?_⟩
  have hbefore : (storedGraph.factsAt 2).trace? (.inputField ⟨"app.Store", "text"⟩) = some (some []) := by
    decide +kernel
  rcases hframe.facts 2 _ _ hbefore with hsame | ⟨_, v, hv, hfield, _⟩
  · exact hsame
  · -- The node is a view, whose traces are kept.
    have hview : (storedGraph.node? 2).any Node.isField := by decide +kernel
    rw [hv, Option.any_some, hfield] at hview
    cases hview

end FlowGraph

end SinkFlow
