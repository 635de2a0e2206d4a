import SinkFlow.Proofs.Build.Fields
import SinkFlow.Proofs.Propagation.Provenance
import SinkFlow.Proofs.Trace

/-!
When traces are dropped. A trace is dropped at an ordinary node only, and only when no neighbour will take the
item from it any more, so no neighbour is ever handed an item without its trace. What fields and sink operands
know is therefore fully traced at the end.
-/

namespace SinkFlow

namespace FlowGraph

variable {P : StatementRef → Prop} {p : Program} {g g' : FlowGraph} {n : NodeId}

theorem traced_collectFields {fields : FieldStats} (hg : ∀ n i, (g.factsAt n).has i = false)
    (h : g.collectFields p = (.ok fields, g')) : g'.Traced P := by
  intro n i t hi ht
  rcases fieldNotes_cases (trace?_collectFields hg h ht) with ⟨_, rfl⟩ | ⟨_, l, rfl, rfl, _⟩
  · exact .nil
  · cases l with
    | text _ => exact .nil
    | constant _ => exact absurd rfl hi

/-- Only ordinary nodes have dropped traces, and only of items that no neighbour will take from them any more. -/
def DropsServed (g : FlowGraph) : Prop :=
  ∀ n i, i.facet ≠ .constants → (g.factsAt n).trace? i = some none → g.isKept n = false ∧ Served g n i

theorem Traced.dropsServed (h : g.Traced P) : g.DropsServed := by
  intro n i hi ht
  obtain ⟨_, hpath, _⟩ := h n i none hi ht
  cases hpath

theorem Walk.mem_path {a : NodeId} {path : Path} (h : g.Walk a path n) :
    ∀ r ∈ path, ∃ c ∈ g.constraints, r ∈ c.path := by
  induction h with
  | here => exact nofun
  | @step path b d c _ hc _ _ ih =>
      intro r hr
      rcases List.mem_append.mp hr with hr | hr
      · exact ih r hr
      · exact ⟨c, hc, hr⟩

end FlowGraph

namespace Propagation

open FlowGraph

variable {P : StatementRef → Prop} {s s' : Propagation} {n : NodeId} {g : FlowGraph}

theorem traced_seedConstant (h : s.graph.Traced P) (n : NodeId) : (s.seedConstant n).graph.Traced P := by
  rcases seedConstant_cases s n with ⟨_, he⟩ | ⟨l, _, he⟩
  · rw [he]
    exact h
  · rw [he]
    refine h.editFacts (fun f hf => hf.add fun hi => ?_) n
    cases l with
    | text _ => exact .nil
    | constant _ => exact absurd rfl hi

theorem traced_seedName {name : AppendName} (h : s.graph.Traced P) (hn : P name.statement) :
    (s.seedName name).graph.Traced P := by
  rcases seedName_cases s name with he | ⟨he, _⟩
  · rw [he]
    exact h
  · rw [he]
    exact h.editFacts (fun f hf => hf.add fun _ => ⟨_, rfl, by simpa using hn⟩) _

/-- Seeds bring their traces: none for a literal, and the statement that appended it for an appended node. -/
theorem traced_seed (h : g.Traced P) (hn : ∀ chain ∈ g.chains, ∀ n r, .operand n r ∈ chain.elements → P r) :
    (seed { graph := g }).graph.Traced P := by
  have hfields : (withFields g).graph.Traced P := by
    rw [graph_withFields]
    exact List.foldlRecOn (motive := fun s : Propagation => s.graph.Traced P) _ _ h fun _ hs k _ =>
      traced_seedConstant hs k
  have hchains : (withFields g).graph.chains = g.chains := by
    rw [graph_withFields]
    exact (grows_withConstants g).shape.chains
  rw [seed_eq]
  refine List.foldlRecOn (motive := fun s : Propagation => s.graph.Traced P) _ _ hfields fun s hs name hname => ?_
  obtain ⟨chain, hchain, hname⟩ := List.mem_flatMap.mp hname
  rw [hchains, Array.mem_toList_iff] at hchain
  exact traced_seedName hs (hn chain hchain _ _ (AppendChain.mem_names hname))

/-- An item whose trace was dropped is not handed to anybody to whom it is new. -/
theorem Handout.dropsServed (h : Handout s n s') (hs : s.graph.DropsServed) : s'.graph.DropsServed := by
  induction h with
  | start => exact hs
  | skip _ ih => exact ih
  | @hand s' c m facts h' _ _ ho ih =>
      have hgrows := grows_absorb s' m facts c.path
      intro k i hi ht
      have hold : (s'.graph.factsAt k).trace? i = some none := by
        rw [trace?_absorb] at ht
        split at ht
        · rename_i hk
          obtain ⟨rfl, hopen⟩ := hk
          rcases Option.or_eq_some_iff.mp ht with ht | ⟨hnew, ht⟩
          · exact ht
          · obtain ⟨t, hf, he⟩ := Option.map_eq_some_iff.mp ht
            have hdropped : t = none := by simpa [Trace.extend] using he
            subst hdropped
            rw [h'.grows.shape.isOpen] at hopen
            have hserved := (hs n i hi (ho.own i none hf)).2
            have hhas := h'.grows.facts m i (ho.due i (Facts.has_of_trace? hf) hopen hserved)
            simp [Facts.has_eq_isSome, hnew] at hhas
        · exact ht
      obtain ⟨hkept, hserved⟩ := ih k i hi hold
      exact ⟨hgrows.shape.isKept k ▸ hkept, hserved.mono hgrows⟩

theorem settle_dropsServed (hserved : ∀ i, (s.graph.factsAt n).has i → Served s.graph n i)
    (hs : s.graph.DropsServed) : (s.settle n).graph.DropsServed := by
  have hgrows := grows_settle s n
  intro k i hi ht
  have hold : s.graph.isKept k = false ∧ Served s.graph k i := by
    rw [trace?_settle] at ht
    split at ht
    · rename_i hk
      obtain ⟨rfl, hv⟩ := hk
      obtain ⟨t, ht, _⟩ := Option.map_eq_some_iff.mp ht
      refine ⟨?_, hserved i (Facts.has_of_trace? ht)⟩
      cases hnode : s.graph.node? n with
      | none => simp [GraphTables.isKept, hnode]
      | some v => simpa [GraphTables.isKept, hnode] using hv
    · exact hs k i hi ht
  exact ⟨hgrows.shape.isKept k ▸ hold.1, hold.2.mono hgrows⟩

theorem complete_dropsServed (cap : Nat) (h : (seed { graph := g }).graph.DropsServed) :
    (complete cap g).graph.DropsServed := by
  refine complete_keeps (P := DropsServed) ?_ ?_ h
  · intro s n s' hh hs
    exact hh.dropsServed hs
  · intro s n hserved hs
    exact settle_dropsServed hserved hs

end Propagation

namespace FlowGraph

variable {P : StatementRef → Prop} {e : EntrypointId} {p : Program} {g g' : FlowGraph} {n : NodeId} {cap : Nat}
  {stats : PropagationStats}

/-- A propagation that starts with every trace leaves no dropped trace at a field or a sink operand, and none of
an item that has not been served. -/
theorem Traced.propagate_dropsServed (h : g.Traced P) (hp : g.propagate cap = .ok (stats, g')) : g'.DropsServed := by
  obtain ⟨_, _, rfl⟩ := propagate_eq_ok_iff.mp hp
  have hall : g.Traced fun _ => True := fun n => (h n).mono fun _ _ => trivial
  have hseed := Propagation.traced_seed hall fun _ _ _ _ _ => trivial
  intro n i hi ht
  obtain ⟨hkept, hs⟩ := Propagation.complete_dropsServed cap hseed.dropsServed n i hi ht
  exact ⟨hkept, hs.withPhase .propagated⟩

/-- What fields and sink operands know after a propagation is fully traced, over statements of the program. -/
theorem Traced.propagate_kept (h : g.Traced (·.IsOf e p)) (hg : g.Charted e p)
    (hp : g.propagate cap = .ok (stats, g')) (hn : g'.isKept n) : (g'.factsAt n).Traced (·.IsOf e p) := by
  intro i t hi ht
  cases t with
  | none =>
      have hkept := (h.propagate_dropsServed hp n i hi ht).1
      rw [hn] at hkept
      cases hkept
  | some path =>
      obtain ⟨_, _, rfl⟩ := propagate_eq_ok_iff.mp hp
      have hall := (Propagation.complete_accounted cap g).items n i (some path) ht
      obtain ⟨a, walked, start, hwalk, hstart, rfl⟩ := hall.path path rfl
      obtain ⟨_, hpath, hof⟩ := Propagation.traced_seed h hg.operands a i _ hi hstart
      cases hpath
      refine ⟨_, rfl, fun r hr => ?_⟩
      rcases List.mem_append.mp hr with hr | hr
      · exact hof r hr
      · obtain ⟨c, hc, hr⟩ := hwalk.mem_path r hr
        exact hg.paths c hc r hr

end FlowGraph

end SinkFlow
