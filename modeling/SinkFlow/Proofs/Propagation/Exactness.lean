import SinkFlow.Proofs.Propagation.Provenance
import SinkFlow.Proofs.Propagation.Termination

/-!
What a propagation computes where nothing holds facts back: without assignments and appends, an item comes to a node
exactly if a walk leads there from a node that had it after seeding. Such a result depends on which nodes are
related, and not on the order in which the constraints were added or on their paths.
-/

namespace SinkFlow

/-- Facts flow back over every constraint of this kind, or over none. -/
def ConstraintKind.isUngated : ConstraintKind → Bool
  | eq | ge | gePhi | geUnidirectional => true
  | geAssign | geAppend => false

namespace FlowGraph

/-- Two graphs over the same nodes, with the same facts and append chains, in which the same nodes are related. The
constraints may come in another order and with other paths. -/
structure Rearranged (g h : FlowGraph) : Prop where
  kinds : ∀ n, (h.node? n).map Node.kind = (g.node? n).map Node.kind
  facts : ∀ n i, (h.factsAt n).has i = (g.factsAt n).has i
  chains : h.chains = g.chains
  related : ∀ target kind source,
    (∃ path, ⟨target, kind, source, path⟩ ∈ h.constraints) ↔ ∃ path, ⟨target, kind, source, path⟩ ∈ g.constraints

variable {g g' h : FlowGraph} {n : NodeId} {i : Item}

/-! ## Walks are taken -/

/-- An item that is served goes on over every constraint that leads away from its node. -/
theorem Served.over {c : Constraint} {m : NodeId} (hs : Served g n i) (hc : c ∈ g.constraints) (hl : c.Leads n m)
    (hk : c.kind.isUngated) (ho : g.isOpen m) : (g.factsAt m).has i := by
  cases hl with
  | forth => exact hs.forward c (mem_constraintsFrom.mpr ⟨hc, rfl⟩) ho
  | back hb =>
      apply hs.direct c (mem_constraintsInto.mpr ⟨hc, rfl, hb⟩) _ ho
      cases hkind : c.kind <;> simp_all [ConstraintKind.isUngated, ConstraintKind.isBidirectional]

theorem Walk.has {a : NodeId} {path : Path} (hw : g.Walk a path n) (hk : ∀ c ∈ g.constraints, c.kind.isUngated)
    (hshape : GraphTables.SameShape g g') (hserved : ∀ n i, (g'.factsAt n).has i → Served g' n i) (ha : (g'.factsAt a).has i) :
    (g'.factsAt n).has i := by
  induction hw with
  | here => exact ha
  | @step path b d c _ hc hl ho ih =>
      rw [← hshape.isOpen] at ho
      exact (hserved b i ih).over (hshape.constraints ▸ hc) hl (hk c hc) ho

/-- Without assignments and appends, a propagation without a limit gives a node exactly what walks lead to it. -/
theorem has_complete (hk : ∀ c ∈ g.constraints, c.kind.isUngated) (hg : g.Awaited) (n : NodeId) (i : Item) :
    ((Propagation.complete 0 g).graph.factsAt n).has i ↔
      ∃ a path, g.Walk a path n ∧ ((Propagation.seed { graph := g }).graph.factsAt a).has i := by
  constructor
  · intro hi
    obtain ⟨t, ht⟩ := Facts.trace?_of_has hi
    exact ((Propagation.complete_accounted 0 g).items n i t ht).walk
  · rintro ⟨a, path, hw, hi⟩
    have hserved := Propagation.complete_served hg (Propagation.complete_truncated g)
    exact hw.has hk (Propagation.grows_complete 0 g).shape hserved ((Propagation.grows_seeded 0 g).facts a i hi)

/-! ## Order and paths -/

namespace Rearranged

theorem literal? (hr : g.Rearranged h) (n : NodeId) :
    (h.node? n).bind Node.literal? = (g.node? n).bind Node.literal? := by
  have hn := hr.kinds n
  cases hv : g.node? n <;> cases hw : h.node? n <;> simp [hv, hw] at hn ⊢
  simp [Node.literal?, hn]

theorem node?_isSome (hr : g.Rearranged h) (n : NodeId) : (h.node? n).isSome = (g.node? n).isSome := by
  have hn := congrArg Option.isSome (hr.kinds n)
  simpa only [Option.isSome_map] using hn

theorem any_isConstant (hr : g.Rearranged h) (n : NodeId) :
    (h.node? n).any Node.isConstant = (g.node? n).any Node.isConstant := by
  have hn := hr.kinds n
  cases hv : g.node? n <;> cases hw : h.node? n <;> simp [hv, hw] at hn ⊢
  simp [Node.isConstant, Node.literal?, hn]

theorem isOpen (hr : g.Rearranged h) (n : NodeId) : h.isOpen n = g.isOpen n := by
  have hn := hr.kinds n
  cases hv : g.node? n <;> cases hw : h.node? n <;> simp [GraphTables.isOpen, hv, hw] at hn ⊢
  simp [Node.isConstant, Node.literal?, hn]

theorem symm (hr : g.Rearranged h) : h.Rearranged g where
  kinds n := (hr.kinds n).symm
  facts n i := (hr.facts n i).symm
  chains := hr.chains.symm
  related target kind source := (hr.related target kind source).symm

theorem constraint (hr : g.Rearranged h) {c : Constraint} (hc : c ∈ h.constraints) :
    ∃ path, ⟨c.target, c.kind, c.source, path⟩ ∈ g.constraints :=
  (hr.related c.target c.kind c.source).mp ⟨c.path, hc⟩

theorem isUngated (hr : g.Rearranged h) (hk : ∀ c ∈ g.constraints, c.kind.isUngated) :
    ∀ c ∈ h.constraints, c.kind.isUngated := by
  intro c hc
  obtain ⟨path, hc⟩ := hr.constraint hc
  exact hk ⟨c.target, c.kind, c.source, path⟩ hc

theorem awaited (hr : g.Rearranged h) (hg : g.Awaited) : h.Awaited := by
  intro n i hi
  rw [hr.facts] at hi
  rw [hr.any_isConstant, Facts.hasFields_iff]
  simp only [hr.facts, ← Facts.hasFields_iff]
  exact hg n i hi

theorem seeds (hr : g.Rearranged h) (hs : h.Seeds n i) : g.Seeds n i := by
  cases hs with
  | literal hl => exact .literal (hr.literal? n ▸ hl)
  | name hchain hname hnode hthere =>
      exact .name (hr.chains ▸ hchain) hname hnode (hr.node?_isSome n ▸ hthere)

theorem seeded (hr : g.Rearranged h) (hi : ((Propagation.seed { graph := h }).graph.factsAt n).has i) :
    ((Propagation.seed { graph := g }).graph.factsAt n).has i := by
  rw [Propagation.has_seed] at hi ⊢
  rw [hr.facts] at hi
  exact hi.imp_right hr.seeds

/-- The same nodes are joined by walks, whatever these cross. -/
theorem walk (hr : g.Rearranged h) {a : NodeId} {path : Path} (hw : h.Walk a path n) : ∃ path', g.Walk a path' n := by
  induction hw with
  | here => exact ⟨[], .here⟩
  | @step path b d c _ hc hl ho ih =>
      obtain ⟨walked, hw⟩ := ih
      obtain ⟨crossed, hc'⟩ := hr.constraint hc
      rw [hr.isOpen] at ho
      refine ⟨walked ++ crossed, hw.step hc' ?_ ho⟩
      cases hl with
      | forth => exact .forth
      | back hb => exact .back hb

theorem complete_subset (hr : g.Rearranged h) (hk : ∀ c ∈ g.constraints, c.kind.isUngated) (hg : g.Awaited)
    (hi : ((Propagation.complete 0 h).graph.factsAt n).has i) : ((Propagation.complete 0 g).graph.factsAt n).has i := by
  rw [has_complete (hr.isUngated hk) (hr.awaited hg)] at hi
  obtain ⟨a, path, hw, hi⟩ := hi
  obtain ⟨path', hw'⟩ := hr.walk hw
  exact (has_complete hk hg n i).mpr ⟨a, path', hw', hr.seeded hi⟩

end Rearranged

/-- Without assignments and appends, a propagation without a limit is exact: a node comes to know an item just if a
walk leads to it from a node that had the item after seeding. Rearranging the constraints and changing their paths
does not change what is known anywhere. -/
theorem propagate_exact {g : FlowGraph} (hphase : g.phase = .fieldsCollected)
    (hk : ∀ c ∈ g.constraints, c.kind = .eq ∨ c.kind = .ge ∨ c.kind = .gePhi ∨ c.kind = .geUnidirectional)
    (hg : ∀ n i, (g.factsAt n).has i → (g.node? n).any Node.isConstant ∨ (g.factsAt n).hasFields) :
    ∃ stats g', g.propagate 0 = .ok (stats, g') ∧
      (∀ n i, (g'.factsAt n).has i ↔
        ∃ a path, g.Walk a path n ∧ ((Propagation.seed { graph := g }).graph.factsAt a).has i) ∧
      ∀ h : FlowGraph, h.phase = .fieldsCollected → g.Rearranged h →
        ∃ stats' h', h.propagate 0 = .ok (stats', h') ∧ ∀ n i, (h'.factsAt n).has i = (g'.factsAt n).has i := by
  have hk : ∀ c ∈ g.constraints, c.kind.isUngated := by
    intro c hc
    rcases hk c hc with hk | hk | hk | hk <;> rw [hk] <;> rfl
  have hp : g.propagate 0 = .ok ((Propagation.complete 0 g).stats, _) := propagate_eq_ok_iff.mpr ⟨hphase, rfl, rfl⟩
  refine ⟨_, _, hp, fun n i => ?_, fun h hh hr => ?_⟩
  · rw [factsAt_propagate hp]
    exact has_complete hk hg n i
  · have hp' : h.propagate 0 = .ok ((Propagation.complete 0 h).stats, _) := propagate_eq_ok_iff.mpr ⟨hh, rfl, rfl⟩
    refine ⟨_, _, hp', fun n i => ?_⟩
    rw [factsAt_propagate hp, factsAt_propagate hp', Bool.eq_iff_iff]
    exact ⟨hr.complete_subset hk hg, hr.symm.complete_subset (hr.isUngated hk) (hr.awaited hg)⟩

/-- A text that flows into a circle of three values, and from there into a fourth one that gives nothing back. -/
def ringGraph : FlowGraph :=
  .after 0
    [.beginBuilding, .valueNode 0 0 (some (.text "secret")), .valueNode 0 1 none, .valueNode 0 2 none,
      .valueNode 0 3 none, .valueNode 0 4 none, .addConstraint 1 .eq 2 [⟨0, 1⟩], .addConstraint 3 .gePhi 1 [⟨0, 2⟩],
      .addConstraint 2 .ge 3 [⟨0, 3⟩], .addConstraint 3 .ge 0 [⟨0, 4⟩], .addConstraint 4 .geUnidirectional 1 [⟨0, 5⟩],
      .finishFields]

/-- The same circle, drawn in another order by another statement. -/
def turnedGraph : FlowGraph :=
  .after 0
    [.beginBuilding, .valueNode 0 0 (some (.text "secret")), .valueNode 0 1 none, .valueNode 0 2 none,
      .valueNode 0 3 none, .valueNode 0 4 none, .addConstraint 4 .geUnidirectional 1 [⟨0, 9⟩],
      .addConstraint 2 .ge 3 [⟨0, 9⟩], .addConstraint 3 .ge 0 [⟨0, 9⟩], .addConstraint 3 .gePhi 1 [],
      .addConstraint 1 .eq 2 [⟨0, 9⟩], .finishFields]

theorem ringGraph_blank (n : NodeId) : ringGraph.factsAt n = .empty := factsAt_eq_empty (by decide +kernel) n

theorem ringGraph_rearranged : ringGraph.Rearranged turnedGraph := by
  have hnodes : turnedGraph.nodes = ringGraph.nodes := by decide +kernel
  have hblank : ∀ n, turnedGraph.factsAt n = .empty := factsAt_eq_empty (by decide +kernel)
  have hring : ringGraph.constraints = #[⟨1, .eq, 2, [⟨0, 1⟩]⟩, ⟨3, .gePhi, 1, [⟨0, 2⟩]⟩, ⟨2, .ge, 3, [⟨0, 3⟩]⟩,
      ⟨3, .ge, 0, [⟨0, 4⟩]⟩, ⟨4, .geUnidirectional, 1, [⟨0, 5⟩]⟩] := by decide +kernel
  have hturned : turnedGraph.constraints = #[⟨4, .geUnidirectional, 1, [⟨0, 9⟩]⟩, ⟨2, .ge, 3, [⟨0, 9⟩]⟩,
      ⟨3, .ge, 0, [⟨0, 9⟩]⟩, ⟨3, .gePhi, 1, []⟩, ⟨1, .eq, 2, [⟨0, 9⟩]⟩] := by decide +kernel
  refine ⟨fun n => ?_, fun n i => ?_, by decide +kernel, fun target kind source => ?_⟩
  · rw [GraphTables.node?, hnodes, GraphTables.node?]
  · rw [hblank, ringGraph_blank]
  · simp only [hring, hturned, List.mem_toArray, List.mem_cons, Constraint.mk.injEq, List.not_mem_nil, or_false,
      exists_or, exists_and_left, exists_eq, and_true]
    apply iff_of_eq
    ac_rfl

theorem ringGraph_exact :
    ringGraph.phase = .fieldsCollected ∧ ringGraph.Rearranged turnedGraph ∧
      ∃ stats g', ringGraph.propagate 0 = .ok (stats, g') ∧
        (∀ n i, (g'.factsAt n).has i ↔
          ∃ a path, ringGraph.Walk a path n ∧ ((Propagation.seed { graph := ringGraph }).graph.factsAt a).has i) ∧
        ∃ stats' h', turnedGraph.propagate 0 = .ok (stats', h') ∧
          ∀ n i, (h'.factsAt n).has i = (g'.factsAt n).has i := by
  have hkinds : ∀ c ∈ ringGraph.constraints,
      c.kind = .eq ∨ c.kind = .ge ∨ c.kind = .gePhi ∨ c.kind = .geUnidirectional := by decide +kernel
  have hblank : ∀ n i, (ringGraph.factsAt n).has i →
      (ringGraph.node? n).any Node.isConstant ∨ (ringGraph.factsAt n).hasFields := by
    intro n i hi
    rw [ringGraph_blank] at hi
    cases hi
  obtain ⟨stats, g', hp, hexact, hrearranged⟩ := propagate_exact rfl hkinds hblank
  exact ⟨rfl, ringGraph_rearranged, stats, g', hp, hexact, hrearranged turnedGraph rfl ringGraph_rearranged⟩

example : ((Propagation.complete 0 ringGraph).graph.factsAt 4).has (.text "secret") = true := by decide +kernel

end FlowGraph

end SinkFlow
