import SinkFlow.Proofs.Propagation.Termination

/-!
The first pass computes reachability. It ends, and then a node knows what it knew after seeding and what was known after
seeding at the start of some chain of constraints that leads to it through nodes that can learn.
-/

namespace SinkFlow

namespace FlowGraph

open GraphTables (SameShape)

variable {g g' start : FlowGraph} {a n : NodeId} {i : Item}

/-- A constraint leads from its source to its target, and the target is no constant. -/
def Flows (g : FlowGraph) (a n : NodeId) : Prop := g.isOpen n ∧ ∃ c ∈ g.constraints, c.source = a ∧ c.target = n

/-- An item that a node has to know: it knew it at the start, or a node did from which a chain leads to it. -/
def Arrives (g start : FlowGraph) (n : NodeId) (i : Item) : Prop :=
  (start.factsAt n).has i ∨ ∃ a, Relation.TransGen g.Flows a n ∧ (start.factsAt a).has i

theorem Arrives.step (h : Arrives g start a i) (hflows : g.Flows a n) : Arrives g start n i := by
  rcases h with h | ⟨b, hchain, h⟩
  · exact .inr ⟨a, .single hflows, h⟩
  · exact .inr ⟨b, hchain.tail hflows, h⟩

/-- In a graph of the same shape, nothing is known that does not arrive. -/
structure OnlyArrivals (g start g' : FlowGraph) : Prop where
  shape : SameShape g g'
  items : ∀ n i, (g'.factsAt n).has i → Arrives g start n i

/-- Where every item goes on over every constraint, everything that arrives is known. -/
theorem has_of_arrives (hshape : SameShape g g') (hstart : ∀ n, start.factsAt n ⊆ g'.factsAt n)
    (hforward : ∀ n i, (g'.factsAt n).has i → Forwarded g' n i) (h : Arrives g start n i) :
    (g'.factsAt n).has i := by
  have hstep : ∀ {b m : NodeId}, g.Flows b m → (g'.factsAt b).has i → (g'.factsAt m).has i := by
    intro b m hflows hb
    obtain ⟨hopen, c, hc, rfl, rfl⟩ := hflows
    rw [← hshape.constraints] at hc
    rw [← hshape.isOpen] at hopen
    exact hforward c.source i hb c (mem_constraintsFrom.mpr ⟨hc, rfl⟩) hopen
  rcases h with h | ⟨a, hchain, h⟩
  · exact hstart n i h
  · induction hchain with
    | single hflows => exact hstep hflows (hstart a i h)
    | tail _ hflows ih => exact hstep hflows ih

end FlowGraph

namespace Propagation

open FlowGraph

variable {s s' : Propagation} {g start : FlowGraph} {cap : Nat}

/-- A turn only hands on what its node knows, and only over constraints from it. -/
theorem onlyArrivals_forwardStep (hs : OnlyArrivals g start s.graph) (n : NodeId) :
    OnlyArrivals g start (s.forwardStep n).graph := by
  apply List.foldlRecOn (motive := fun s' : Propagation => OnlyArrivals g start s'.graph) _ _ hs
  intro s' hs' c hc
  obtain ⟨hmem, hsource⟩ := mem_constraintsFrom.mp hc
  rw [hs.shape.constraints] at hmem
  constructor
  case shape => exact hs'.shape.trans (grows_absorb s' c.target _ c.path).shape
  case items =>
    intro k i hi
    simp only [has_absorb, Bool.or_eq_true, Bool.and_eq_true, decide_eq_true_eq] at hi
    rcases hi with hi | ⟨⟨rfl, hopen⟩, hi⟩
    · exact hs'.items k i hi
    · rw [hs'.shape.isOpen] at hopen
      exact (hs.items n i hi).step ⟨hopen, c, hmem, hsource, rfl⟩

theorem onlyArrivals_afterForward (cap : Nat) (g : FlowGraph) :
    OnlyArrivals g (seed { graph := g }).graph (afterForward cap g).graph := by
  apply afterForward_keeps
  · intro s n hs
    apply onlyArrivals_forwardStep
    exact hs
  · exact ⟨(grows_seed g).shape, fun _ _ hi => .inl hi⟩

end Propagation

namespace FlowGraph

/-- After a first pass without a limit, a node knows just what arrives at it. -/
theorem has_afterForward (hg : g.Awaited) (n : NodeId) (i : Item) :
    ((Propagation.afterForward 0 g).graph.factsAt n).has i ↔
      Arrives g (Propagation.seed { graph := g }).graph n i := by
  obtain ⟨hfirst, _⟩ := Propagation.complete_drains g
  have htruncated : (Propagation.afterForward 0 g).stats.truncated = false := by
    rw [hfirst.truncated Propagation.forwardTurn_turned, (Propagation.fresh_seed g).truncated]
  have harrivals := Propagation.onlyArrivals_afterForward 0 g
  constructor
  · exact harrivals.items n i
  · apply has_of_arrives harrivals.shape (Propagation.grows_afterForward 0 g).facts
    exact Propagation.forwarded_afterForward hg htruncated

/-- Without a limit the first pass comes to an end, and after it a node has an item in a facet just if it had it after
seeding, or if a chain of constraints leads to it, through nodes none of which is a constant, from a node that had it
after seeding. The second pass goes on from there. -/
theorem forward_exact {g : FlowGraph} (hphase : g.phase = .fieldsCollected)
    (hg : ∀ n i, (g.factsAt n).has i → (g.node? n).any Node.isConstant ∨ (g.factsAt n).hasFields) :
    let seeded := Propagation.seed { graph := g }
    ∃ s₁ s₂, Propagation.Drains .forwardTurn seeded s₁ ∧ Propagation.Drains .combinedTurn s₁.reseed s₂ ∧
      g.propagate 0 = .ok (s₂.stats, s₂.graph.inPhase .propagated) ∧
      ∀ n facet i, ((s₁.graph.factsAt n).only facet).has i ↔
        ((seeded.graph.factsAt n).only facet).has i ∨
          ∃ a, Relation.TransGen g.Flows a n ∧ ((seeded.graph.factsAt a).only facet).has i := by
  intro seeded
  obtain ⟨hfirst, hsecond⟩ := Propagation.complete_drains g
  refine ⟨_, _, hfirst, hsecond, propagate_eq_ok_iff.mpr ⟨hphase, rfl, rfl⟩, fun n facet i => ?_⟩
  have hiff : _ ↔ Arrives g seeded.graph n i := has_afterForward hg n i
  rw [Arrives] at hiff
  by_cases hfacet : i.facet = facet
  · simpa only [Facts.only, Facts.has_filter, hfacet, decide_true, Bool.true_and] using hiff
  · simp [Facts.only, hfacet]

/-- Two values that follow each other, a text that flows into one of them, and behind the other a constant that lets
nothing through. -/
def barredGraph : FlowGraph :=
  .after 0
    [.beginBuilding, .valueNode 0 0 (some (.text "secret")), .valueNode 0 1 none, .valueNode 0 2 none,
      .valueNode 0 3 (some (.text "public")), .valueNode 0 4 none, .addConstraint 1 .ge 0 [⟨0, 1⟩],
      .addConstraint 2 .geAssign 1 [⟨0, 2⟩], .addConstraint 1 .gePhi 2 [⟨0, 3⟩], .addConstraint 3 .geAppend 2 [⟨0, 4⟩],
      .addConstraint 4 .eq 3 [⟨0, 5⟩], .finishFields]

theorem barredGraph_exact :
    barredGraph.phase = .fieldsCollected ∧
      (∀ n i, (barredGraph.factsAt n).has i →
        (barredGraph.node? n).any Node.isConstant ∨ (barredGraph.factsAt n).hasFields) ∧
      ∃ s₁ s₂, Propagation.Drains .forwardTurn (Propagation.seed { graph := barredGraph }) s₁ ∧
        Propagation.Drains .combinedTurn s₁.reseed s₂ ∧
        barredGraph.propagate 0 = .ok (s₂.stats, s₂.graph.inPhase .propagated) ∧
        ((s₁.graph.factsAt 2).only .texts).has (.text "secret") ∧
        ((s₁.graph.factsAt 4).only .texts).has (.text "public") := by
  have hblank : ∀ n i, (barredGraph.factsAt n).has i →
      (barredGraph.node? n).any Node.isConstant ∨ (barredGraph.factsAt n).hasFields := by
    intro n i hi
    rw [factsAt_eq_empty (by decide +kernel) n] at hi
    cases hi
  obtain ⟨s₁, s₂, hfirst, hsecond, hprop, hexact⟩ := forward_exact (g := barredGraph) rfl hblank
  have hin : barredGraph.Flows 0 1 := ⟨by decide +kernel, by decide +kernel⟩
  have hon : barredGraph.Flows 1 2 := ⟨by decide +kernel, by decide +kernel⟩
  have hbehind : barredGraph.Flows 3 4 := ⟨by decide +kernel, by decide +kernel⟩
  have hsecret : (((Propagation.seed { graph := barredGraph }).graph.factsAt 0).only .texts).has (.text "secret") := by
    decide +kernel
  have hpublic : (((Propagation.seed { graph := barredGraph }).graph.factsAt 3).only .texts).has (.text "public") := by
    decide +kernel
  refine ⟨rfl, hblank, s₁, s₂, hfirst, hsecond, hprop, ?_, ?_⟩
  · exact (hexact 2 .texts _).mpr (.inr ⟨0, (Relation.TransGen.single hin).tail hon, hsecret⟩)
  · exact (hexact 4 .texts _).mpr (.inr ⟨3, .single hbehind, hpublic⟩)

example : ((Propagation.afterForward 0 barredGraph).graph.factsAt 4).has (.text "secret") = false := by decide +kernel

end FlowGraph

end SinkFlow
