import SinkFlow.Proofs.Build.Fields
import SinkFlow.Proofs.Program
import SinkFlow.Proofs.Propagation.Run

/-!
What holds of a graph after a propagation that was not stopped at the limit. Every constraint is closed towards
its target, and back towards its source by the rule of its kind.
-/

namespace SinkFlow

namespace FlowGraph

variable {g g' : FlowGraph} {cap : Nat} {stats : PropagationStats}

/-- After a propagation that was not stopped, every item of every node has been served. -/
theorem served_propagate (h : g.Awaited) (hp : g.propagate cap = .ok (stats, g')) (ht : stats.truncated = false)
    {n : NodeId} {i : Item} (hi : (g'.factsAt n).has i) : Served g' n i := by
  obtain ⟨_, rfl, rfl⟩ := propagate_eq_ok_iff.mp hp
  exact (Propagation.complete_served h ht n i hi).withPhase .propagated

/-! ## A program to look at -/

/-- A program that adds a text and another value, casts the sum, and joins it with a third value. -/
def sumProgram : Program := GraphDocument.program
  { statements :=
      [⟨7, 0, .normal (.binaryOp 2 0 1)⟩, ⟨8, 0, .normal (.checkCast 3 2)⟩, ⟨9, 0, .phi 5 [some 3, some 4]⟩]
    edges := [(7, 8), (8, 9)]
    literals := [⟨0, 0, .text "secret"⟩] }

/-- The graph of a program that has no rules, when its fields are collected. -/
def collectedOf (e : EntrypointId) (p : Program) : FlowGraph :=
  ((({ entrypoint := e } : FlowGraph).build ⟨p, {}, {}⟩ false).graph.collectFields p).2

def sumGraph : FlowGraph := collectedOf 0 sumProgram

theorem sumGraph_collected : sumGraph.Collected := by
  let outcome := ({ entrypoint := 0 } : FlowGraph).build ⟨sumProgram, {}, {}⟩ false
  have hbuild : outcome.result.toOption.isSome := by decide +kernel
  have hfields : (outcome.graph.collectFields sumProgram).1.toOption.isSome := by decide +kernel
  obtain ⟨built, hbuild⟩ := Option.isSome_iff_exists.mp hbuild
  obtain ⟨fields, hfields⟩ := Option.isSome_iff_exists.mp hfields
  refine ⟨0, ⟨sumProgram, {}, {}⟩, false, built, sumProgram, fields, eq_ok_of_toOption hbuild, ?_⟩
  rw [sumGraph, collectedOf, ← eq_ok_of_toOption hfields]

/-- Whether a value of procedure 0 knows the text of the program. -/
def knowsSecret (g : FlowGraph) (slot : ValueSlot) : Bool :=
  (g.valueNode? 0 slot).any fun n => (g.factsAt n).has (.text "secret")

/-- The text arrives at the sum, at the cast and at the join, and comes back from the join to the third value. -/
theorem sumGraph_propagate :
    ∃ stats g', sumGraph.propagate 0 = .ok (stats, g') ∧ stats.truncated = false ∧
      [2, 3, 5, 4].all g'.knowsSecret :=
  ⟨_, _, propagate_eq_ok_iff.mpr ⟨by decide +kernel, rfl, rfl⟩, by decide +kernel, by decide +kernel⟩

/-! ## Closure -/

/-- The target of a constraint, unless it is a constant, knows in every facet all that the source knows. -/
theorem targets_know_sources (h : g.Collected) (hp : g.propagate cap = .ok (stats, g'))
    (ht : stats.truncated = false) :
    ∀ c ∈ g'.constraints, g'.isOpen c.target →
      ∀ facet, (g'.factsAt c.source).only facet ⊆ (g'.factsAt c.target).only facet := by
  intro c hc ho
  refine Facts.only_subset_only fun i hi => ?_
  have hs := served_propagate h.awaited hp ht hi
  exact hs.forward c (mem_constraintsFrom.mpr ⟨hc, rfl⟩) ho

theorem sumGraph_targets_know_sources :
    ∃ stats g', sumGraph.propagate 0 = .ok (stats, g') ∧ stats.truncated = false ∧
      (∀ c ∈ g'.constraints, g'.isOpen c.target →
        ∀ facet, (g'.factsAt c.source).only facet ⊆ (g'.factsAt c.target).only facet) ∧
      g'.knowsSecret 2 ∧ g'.knowsSecret 3 ∧ g'.knowsSecret 5 := by
  obtain ⟨stats, g', hp, ht, hknown⟩ := sumGraph_propagate
  have hknown := List.all_eq_true.mp hknown
  exact ⟨stats, g', hp, ht, targets_know_sources sumGraph_collected hp ht, hknown 2 (by simp), hknown 3 (by simp),
    hknown 5 (by simp)⟩

/-- Facts come back over each kind of constraint by its rule: always over equalities, correlations and joins, over
an append whose source knows no text, to the only operand of an assignment, and of two operands to one unless the
other one knows something of the facet. -/
theorem sources_know_targets (h : g.Collected) (hp : g.propagate cap = .ok (stats, g'))
    (ht : stats.truncated = false) :
    (∀ c ∈ g'.constraints, c.kind = .eq ∨ c.kind = .ge ∨ c.kind = .gePhi → g'.isOpen c.source →
      ∀ facet, (g'.factsAt c.target).only facet ⊆ (g'.factsAt c.source).only facet) ∧
    (∀ c ∈ g'.constraints, c.kind = .eq → g'.isOpen c.source → g'.isOpen c.target →
      ∀ i, (g'.factsAt c.target).has i = (g'.factsAt c.source).has i) ∧
    (∀ c ∈ g'.constraints, c.kind = .geAppend → g'.isOpen c.source → (g'.factsAt c.source).lacks .texts →
      ∀ facet, (g'.factsAt c.target).only facet ⊆ (g'.factsAt c.source).only facet) ∧
    (∀ n c, g'.assignsInto n = [c] → g'.isOpen c.source →
      ∀ facet, (g'.factsAt n).only facet ⊆ (g'.factsAt c.source).only facet) ∧
    ∀ n l r, g'.assignsInto n = [l, r] → ∀ facet,
      (g'.isOpen l.source → (g'.factsAt l.source).lacks facet →
        (g'.factsAt n).only facet ⊆ (g'.factsAt r.source).only facet) ∧
      (g'.isOpen r.source → (g'.factsAt r.source).lacks facet →
        (g'.factsAt n).only facet ⊆ (g'.factsAt l.source).only facet) := by
  have hserved : ∀ n i, (g'.factsAt n).has i → Served g' n i := fun n i hi => served_propagate h.awaited hp ht hi
  have hover : ∀ c ∈ g'.constraints, c.kind = .eq ∨ c.kind = .ge ∨ c.kind = .gePhi → g'.isOpen c.source →
      g'.factsAt c.target ⊆ g'.factsAt c.source := by
    intro c hc hk ho i hi
    have hb : c.kind.isBidirectional := by rcases hk with hk | hk | hk <;> rw [hk] <;> rfl
    exact (hserved _ i hi).direct c (mem_constraintsInto.mpr ⟨hc, rfl, hb⟩) hk ho
  refine ⟨?_, ?_, ?_, ?_, ?_⟩
  · intro c hc hk ho
    exact Facts.only_subset_only (hover c hc hk ho)
  · intro c hc hk ho ho' i
    rw [Bool.eq_iff_iff]
    refine ⟨hover c hc (.inl hk) ho i, fun hi => ?_⟩
    exact (hserved _ i hi).forward c (mem_constraintsFrom.mpr ⟨hc, rfl⟩) ho'
  · intro c hc hk ho hl
    refine Facts.only_subset_only fun i hi => ?_
    have hb : c.kind.isBidirectional := by rw [hk]; rfl
    exact (hserved _ i hi).append c (mem_constraintsInto.mpr ⟨hc, rfl, hb⟩) hk ho hl
  · intro n c hc ho
    exact Facts.only_subset_only fun i hi => (hserved n i hi).single c hc ho
  · intro n l r hc facet
    constructor
    · intro ho hl
      refine Facts.only_subset_only_iff.mpr fun i hf hi => ?_
      exact (hserved n i hi).left l r hc ho (hf ▸ hl)
    · intro ho hl
      refine Facts.only_subset_only_iff.mpr fun i hf hi => ?_
      exact (hserved n i hi).right l r hc ho (hf ▸ hl)

theorem sumGraph_sources_know_targets :
    ∃ stats g', sumGraph.propagate 0 = .ok (stats, g') ∧ stats.truncated = false ∧
      (∀ c ∈ g'.constraints, c.kind = .eq ∨ c.kind = .ge ∨ c.kind = .gePhi → g'.isOpen c.source →
        ∀ facet, (g'.factsAt c.target).only facet ⊆ (g'.factsAt c.source).only facet) ∧
      (∀ c ∈ g'.constraints, c.kind = .eq → g'.isOpen c.source → g'.isOpen c.target →
        ∀ i, (g'.factsAt c.target).has i = (g'.factsAt c.source).has i) ∧
      g'.knowsSecret 5 ∧ g'.knowsSecret 4 := by
  obtain ⟨stats, g', hp, ht, hknown⟩ := sumGraph_propagate
  have hknown := List.all_eq_true.mp hknown
  obtain ⟨hback, hequal, _⟩ := sources_know_targets sumGraph_collected hp ht
  exact ⟨stats, g', hp, ht, hback, hequal, hknown 5 (by simp), hknown 4 (by simp)⟩

end FlowGraph

end SinkFlow
