import SinkFlow.Proofs.Flow.Operation
import SinkFlow.Proofs.Propagation.Run

/-!
Where facts come from. An item is at a node only if a walk over constraints leads there from a node that had it
after seeding, and a trace is the trace of such a start followed by what its walk crosses.
-/

namespace SinkFlow

/-- A walk over constraints of a graph that enters only nodes which can learn, and the path that it crosses. -/
inductive FlowGraph.Walk (g : FlowGraph) (a : NodeId) : Path → NodeId → Prop where
  | here : Walk g a [] a
  | step {p : Path} {b d : NodeId} {c : Constraint} (w : Walk g a p b) (hc : c ∈ g.constraints)
      (hl : c.Leads b d) (ho : g.isOpen d) : Walk g a (p ++ c.path) d

/-- An item at a node, with its trace, is accounted for by what was known at the start. -/
structure FlowGraph.Accounted (g start : FlowGraph) (n : NodeId) (i : Item) (t : Trace) : Prop where
  walk : ∃ a p, g.Walk a p n ∧ (start.factsAt a).has i
  path : ∀ q, t = some q → ∃ a p q₀, g.Walk a p n ∧ (start.factsAt a).trace? i = some (some q₀) ∧ q = q₀ ++ p

namespace FlowGraph

open GraphTables (SameShape)

variable {g g' start : FlowGraph} {n m : NodeId} {i : Item} {t : Trace}

theorem Accounted.here (h : (start.factsAt n).trace? i = some t) : Accounted g start n i t where
  walk := ⟨n, [], .here, Facts.has_of_trace? h⟩
  path q hq := ⟨n, [], q, .here, hq ▸ h, (List.append_nil q).symm⟩

theorem Accounted.step {c : Constraint} (h : Accounted g start n i t) (hc : c ∈ g.constraints) (hl : c.Leads n m)
    (ho : g.isOpen m) : Accounted g start m i (t.extend c.path) where
  walk := by
    obtain ⟨a, p, hw, hi⟩ := h.walk
    exact ⟨a, p ++ c.path, hw.step hc hl ho, hi⟩
  path q hq := by
    cases t with
    | none => cases hq
    | some r =>
        obtain ⟨a, p, q₀, hw, hs, rfl⟩ := h.path r rfl
        rw [Trace.extend_some, Option.some.injEq] at hq
        exact ⟨a, p ++ c.path, q₀, hw.step hc hl ho, hs, by rw [← hq, List.append_assoc]⟩

theorem Accounted.drop (h : Accounted g start n i t) : Accounted g start n i none :=
  ⟨h.walk, fun _ hq => by cases hq⟩

/-- Everything that is known in a graph of the same shape is accounted for. -/
structure AllAccounted (g start g' : FlowGraph) : Prop where
  shape : SameShape g g'
  items : ∀ n i t, (g'.factsAt n).trace? i = some t → Accounted g start n i t

end FlowGraph

namespace Propagation

open FlowGraph

variable {s s' : Propagation} {n : NodeId} {g start : FlowGraph} {cap : Nat}

/-- What a handout adds to a neighbour is accounted for by what the node itself knows. -/
theorem Handout.accounted (h : Handout s n s') (hs : AllAccounted g start s.graph) : AllAccounted g start s'.graph := by
  refine ⟨hs.shape.trans h.grows.shape, ?_⟩
  induction h with
  | start => exact hs.items
  | skip _ ih => exact ih
  | @hand s' c m facts h' hc hl ho ih =>
      intro k i t ht
      rw [trace?_absorb] at ht
      split at ht
      · rename_i hk
        obtain ⟨rfl, hopen⟩ := hk
        rcases Option.or_eq_some_iff.mp ht with ht | ⟨_, ht⟩
        · exact ih m i t ht
        · obtain ⟨t₀, hf, rfl⟩ := Option.map_eq_some_iff.mp ht
          rw [(hs.shape.trans h'.grows.shape).isOpen] at hopen
          rw [hs.shape.constraints] at hc
          exact (hs.items n i t₀ (ho.own i t₀ hf)).step hc hl hopen
      · exact ih k i t ht

theorem settle_accounted (hs : AllAccounted g start s.graph) (n : NodeId) :
    AllAccounted g start (s.settle n).graph := by
  refine ⟨hs.shape.trans (grows_settle s n).shape, ?_⟩
  intro k i t ht
  rw [trace?_settle] at ht
  split at ht
  · obtain ⟨t₀, ht₀, rfl⟩ := Option.map_eq_some_iff.mp ht
    exact (hs.items k i t₀ ht₀).drop
  · exact hs.items k i t ht

theorem complete_accounted (cap : Nat) (g : FlowGraph) :
    AllAccounted g (seed { graph := g }).graph (complete cap g).graph := by
  refine complete_keeps (P := AllAccounted g (seed { graph := g }).graph) ?_ ?_ ?_
  · intro s n s' h hs
    exact h.accounted hs
  · intro s n _ hs
    exact settle_accounted hs n
  · exact ⟨(grows_seed g).shape, fun n i t ht => .here ht⟩

end Propagation

namespace FlowGraph

/-- A propagation gives a node nothing that does not come to it on a walk, and no trace that is not the trace of
the start of such a walk and what the walk crosses. It does not matter whether it is stopped at the limit. -/
theorem propagate_accounted (cap : Nat) {g : FlowGraph} (hg : g.phase = .fieldsCollected) :
    ∃ stats g', g.propagate cap = .ok (stats, g') ∧
      ∀ n i t, (g'.factsAt n).trace? i = some t →
        Accounted g (Propagation.seed { graph := g }).graph n i t :=
  ⟨_, _, propagate_eq_ok_iff.mpr ⟨hg, rfl, rfl⟩, (Propagation.complete_accounted cap g).items⟩

/-- A text that flows into a value, and back from there into a second one that a sink leaks. -/
def detourGraph : FlowGraph :=
  .after 0
    [.beginBuilding, .valueNode 0 0 (some (.text "secret")), .valueNode 0 1 none, .valueNode 0 2 none, .markSpecial 2,
      .addConstraint 1 .eq 0 [⟨0, 1⟩], .addConstraint 1 .ge 2 [⟨0, 2⟩], .finishFields]

theorem detourGraph_accounted :
    ∃ stats g', detourGraph.propagate 0 = .ok (stats, g') ∧
      ∀ n i t, (g'.factsAt n).trace? i = some t →
        Accounted detourGraph (Propagation.seed { graph := detourGraph }).graph n i t :=
  propagate_accounted 0 rfl

example : ((Propagation.complete 0 detourGraph).graph.factsAt 2).trace? (.text "secret") =
    some (some [⟨0, 1⟩, ⟨0, 2⟩]) := by decide +kernel

end FlowGraph

end SinkFlow
