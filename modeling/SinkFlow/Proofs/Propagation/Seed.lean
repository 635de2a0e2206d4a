import SinkFlow.Proofs.Propagation.Handout

/-!
How a propagation starts: constants get their literals, appended values get the names in front of them, and
every node that knows something then waits for its turn.
-/

namespace SinkFlow

/-- Every node that knows something is a constant or knows a field, which is what a propagation starts from. -/
def FlowGraph.Awaited (g : FlowGraph) : Prop :=
  ∀ n i, (g.factsAt n).has i → (g.node? n).any Node.isConstant ∨ (g.factsAt n).hasFields

namespace FlowGraph

/-- The items that a propagation gives to a node at its start: the literal of a constant, and the names in front of an
appended value. -/
inductive Seeds (g : FlowGraph) (n : NodeId) : Item → Prop where
  | literal {l : Literal} (h : (g.node? n).bind Node.literal? = some l) : Seeds g n l.item
  | name {chain : AppendChain} {name : AppendName} (hchain : chain ∈ g.chains) (hname : name ∈ chain.names)
      (hnode : name.node = n) (hthere : (g.node? n).isSome) : Seeds g n (.text name.name)

end FlowGraph

namespace AppendChain

theorem mem_namesFrom {name : AppendName} {run : List Char} {es : List AppendElement} (h : name ∈ namesFrom run es) :
    .operand name.node name.statement ∈ es := by
  induction es generalizing run with
  | nil => cases h
  | cons e es ih =>
      cases e with
      | literal t => exact List.mem_cons_of_mem _ (ih h)
      | operand node statement =>
          simp only [namesFrom] at h
          split at h
          · rcases List.mem_cons.mp h with rfl | h
            · exact List.mem_cons_self
            · exact List.mem_cons_of_mem _ (ih h)
          · exact List.mem_cons_of_mem _ (ih h)

theorem mem_names {name : AppendName} {c : AppendChain} (h : name ∈ c.names) :
    .operand name.node name.statement ∈ c.elements := mem_namesFrom h

end AppendChain

namespace Propagation

open FlowGraph GraphTables

variable {s : Propagation} {n k : NodeId} {i : Item}

/-! ## Single seeds -/

theorem mem_pending_seedNode : k ∈ (s.seedNode n).worklist.pending ↔ k ∈ s.worklist.pending ∨ k = n := by
  simp [seedNode]

theorem seedConstant_cases (s : Propagation) (n : NodeId) :
    ((s.graph.node? n).any Node.isConstant = false ∧ s.seedConstant n = s) ∨
      ∃ l, (s.graph.node? n).any Node.isConstant ∧
        s.seedConstant n = { s with graph := s.graph.editFacts n (·.addLiteral l) }.seedNode n := by
  unfold seedConstant
  cases hv : s.graph.node? n with
  | none => simp
  | some v =>
      cases hl : v.literal? with
      | none => simp [Node.isConstant, hl]
      | some l => exact .inr ⟨l, by simp [Node.isConstant, hl], by simp [hl]⟩

theorem grows_seedConstant (s : Propagation) (n : NodeId) : Grows s.graph (s.seedConstant n).graph := by
  rcases seedConstant_cases s n with ⟨_, h⟩ | ⟨l, _, h⟩
  · rw [h]
    exact .refl _
  · rw [h]
    refine Grows.editFacts n (·.addLiteral l) ?_
    intro i hi
    simp [Facts.addLiteral, hi]

theorem seedName_cases (s : Propagation) (name : AppendName) :
    s.seedName name = s ∨
      (s.seedName name).graph =
          s.graph.editFacts name.node (·.add (.text name.name) (some [name.statement])) ∧
        ((s.seedName name).worklist = s.worklist.push name.node ∨
          (s.seedName name).worklist = s.worklist ∧ (s.graph.factsAt name.node).has (.text name.name)) := by
  simp only [seedName]
  split
  · split
    · simp
    · rename_i hnew
      exact .inr ⟨rfl, .inr ⟨rfl, by simpa using hnew⟩⟩
  · exact .inl rfl

theorem grows_seedName (s : Propagation) (name : AppendName) : Grows s.graph (s.seedName name).graph := by
  rcases seedName_cases s name with h | ⟨h, _⟩
  · rw [h]
    exact .refl _
  · rw [h]
    refine Grows.editFacts _ (·.add (.text name.name) (some [name.statement])) ?_
    intro i hi
    simp [hi]

theorem has_seedConstant (s : Propagation) (n k : NodeId) (i : Item) :
    ((s.seedConstant n).graph.factsAt k).has i ↔
      (s.graph.factsAt k).has i ∨ n = k ∧ ∃ l, (s.graph.node? k).bind Node.literal? = some l ∧ i = l.item := by
  by_cases hk : n = k
  · subst hk
    cases hl : (s.graph.node? n).bind Node.literal? with
    | none => simp [seedConstant, hl]
    | some l =>
        obtain ⟨v, hv, hl⟩ := Option.bind_eq_some_iff.mp hl
        simp [seedConstant, hl, seedNode, factsAt_editFacts, hv, Facts.addLiteral]
  · cases hl : (s.graph.node? n).bind Node.literal? with
    | none => simp [seedConstant, hl, hk]
    | some l => simp [seedConstant, hl, seedNode, factsAt_editFacts_of_ne, hk]

theorem has_seedName (s : Propagation) (name : AppendName) (k : NodeId) (i : Item) :
    ((s.seedName name).graph.factsAt k).has i ↔
      (s.graph.factsAt k).has i ∨ name.node = k ∧ (s.graph.node? k).isSome ∧ i = .text name.name := by
  by_cases hn : (s.graph.node? name.node).isSome
  · have hgraph : (s.seedName name).graph =
        s.graph.editFacts name.node (·.add (.text name.name) (some [name.statement])) := by
      simp only [seedName, hn, if_true]
      split <;> rfl
    rw [hgraph]
    by_cases hk : name.node = k
    · subst hk
      simp [factsAt_editFacts, hn]
    · simp [factsAt_editFacts_of_ne, hk]
  · have hk : ¬(name.node = k ∧ (s.graph.node? k).isSome ∧ i = .text name.name) := by
      rintro ⟨rfl, hk, _⟩
      exact hn hk
    simp [seedName, hn, hk]

/-! ## All seeds -/

def withConstants (g : FlowGraph) : Propagation := (List.range g.nodes.size).foldl seedConstant { graph := g }

def withFields (g : FlowGraph) : Propagation :=
  (fieldNodes (withConstants g).graph).foldl seedNode (withConstants g)

theorem seed_eq (g : FlowGraph) :
    seed { graph := g } =
      ((withFields g).graph.chains.toList.flatMap AppendChain.names).foldl seedName (withFields g) := by
  rw [seed, map_id_nodes]
  rfl

theorem graph_withFields (g : FlowGraph) : (withFields g).graph = (withConstants g).graph :=
  List.foldlRecOn (motive := fun s : Propagation => s.graph = (withConstants g).graph) _ _ rfl fun _ h _ _ => h

theorem grows_withConstants (g : FlowGraph) : Grows g (withConstants g).graph :=
  foldl_grows grows_seedConstant _ { graph := g }

theorem grows_seed (g : FlowGraph) : Grows g (seed { graph := g }).graph := by
  have h : Grows g (withFields g).graph := graph_withFields g ▸ grows_withConstants g
  rw [seed_eq]
  exact h.trans (foldl_grows grows_seedName _ _)

/-- Steps that each add what the shape of the graph says add all of it together. -/
theorem has_foldl {α : Type} {f : Propagation → α → Propagation} {A : FlowGraph → α → NodeId → Item → Prop}
    (grows : ∀ s a, Grows s.graph (f s a).graph)
    (adds : ∀ s a k i, ((f s a).graph.factsAt k).has i ↔ (s.graph.factsAt k).has i ∨ A s.graph a k i)
    (stable : ∀ (g g' : FlowGraph) a k i, SameShape g g' → (A g' a k i ↔ A g a k i)) (as : List α) (s : Propagation)
    (k : NodeId) (i : Item) :
    ((as.foldl f s).graph.factsAt k).has i ↔ (s.graph.factsAt k).has i ∨ ∃ a ∈ as, A s.graph a k i := by
  induction as generalizing s with
  | nil => simp
  | cons a as ih =>
      rw [List.foldl_cons, ih, adds]
      simp [stable _ _ _ _ _ (grows s a).shape, or_assoc]

theorem has_withConstants (g : FlowGraph) (k : NodeId) (i : Item) :
    ((withConstants g).graph.factsAt k).has i ↔
      (g.factsAt k).has i ∨ ∃ l, (g.node? k).bind Node.literal? = some l ∧ i = l.item := by
  let A (g : FlowGraph) (n k : NodeId) (i : Item) : Prop :=
    n = k ∧ ∃ l, (g.node? k).bind Node.literal? = some l ∧ i = l.item
  rw [withConstants, has_foldl (A := A) grows_seedConstant has_seedConstant]
  · apply or_congr_right
    constructor
    · rintro ⟨_, _, rfl, hl⟩
      exact hl
    · rintro ⟨l, hl, rfl⟩
      obtain ⟨v, hv, _⟩ := Option.bind_eq_some_iff.mp hl
      exact ⟨k, List.mem_range.mpr (node?_isSome_iff.mp (by simp [hv])), rfl, l, hl, rfl⟩
  · intro g g' a k i hshape
    simp only [A, hshape.node?]

/-- After seeding a node knows what it knew before and what it is given, and nothing else. -/
theorem has_seed (g : FlowGraph) (n : NodeId) (i : Item) :
    ((seed { graph := g }).graph.factsAt n).has i ↔ (g.factsAt n).has i ∨ g.Seeds n i := by
  have hshape : SameShape g (withFields g).graph := graph_withFields g ▸ (grows_withConstants g).shape
  let A (g : FlowGraph) (name : AppendName) (k : NodeId) (i : Item) : Prop :=
    name.node = k ∧ (g.node? k).isSome ∧ i = .text name.name
  rw [seed_eq, has_foldl (A := A) grows_seedName has_seedName]
  · simp only [A, hshape.node?_isSome, hshape.chains]
    rw [graph_withFields, has_withConstants, or_assoc]
    apply or_congr_right
    constructor
    · rintro (⟨l, hl, rfl⟩ | ⟨name, hname, hnode, hthere, rfl⟩)
      · exact .literal hl
      · obtain ⟨chain, hchain, hname⟩ := List.mem_flatMap.mp hname
        exact .name (Array.mem_toList_iff.mp hchain) hname hnode hthere
    · intro hseeds
      cases hseeds with
      | literal hl => exact .inl ⟨_, hl, rfl⟩
      | name hchain hname hnode hthere =>
          exact .inr ⟨_, List.mem_flatMap.mpr ⟨_, Array.mem_toList_iff.mpr hchain, hname⟩, hnode, hthere, rfl⟩
  · intro g g' a k i hshape
    simp only [A, hshape.node?_isSome]

theorem constant_waits {g : FlowGraph} (h : (g.node? n).any Node.isConstant) :
    n ∈ (withConstants g).worklist.pending := by
  have hshape := (grows_withConstants g).shape
  have hn : n < g.nodes.size := by
    cases hv : g.node? n with
    | none => simp [hv] at h
    | some v => exact (Array.getElem?_eq_some_iff.mp hv).1
  let Q (k : NodeId) (s : Propagation) : Prop := (s.graph.node? k).any Node.isConstant → k ∈ s.worklist.pending
  refine foldl_reaches (Q := Q) ?_ ?_ (List.range g.nodes.size) { graph := g } n (List.mem_range.mpr hn) ?_
  · intro s k hk
    rcases seedConstant_cases s k with ⟨hc, he⟩ | ⟨l, _, he⟩
    · simp [he, hc] at hk
    · rw [he, mem_pending_seedNode]
      exact .inr rfl
  · intro s k m hq hk
    rw [(grows_seedConstant s m).shape.node? k] at hk
    rcases seedConstant_cases s m with ⟨_, he⟩ | ⟨l, _, he⟩
    · rw [he]
      exact hq hk
    · rw [he, mem_pending_seedNode]
      exact .inl (hq hk)
  · exact hshape.node? n ▸ h

theorem awaited_withConstants {g : FlowGraph} (hg : g.Awaited) : (withConstants g).graph.Awaited := by
  refine List.foldlRecOn (motive := fun s : Propagation => s.graph.Awaited) _ _ hg ?_
  intro s hs m _ k i hi
  rw [(grows_seedConstant s m).shape.node? k]
  rcases seedConstant_cases s m with ⟨_, he⟩ | ⟨l, hm, he⟩
  · rw [he] at hi ⊢
    exact hs k i hi
  · by_cases hk : m = k
    · exact .inl (hk ▸ hm)
    · have hf : (s.seedConstant m).graph.factsAt k = s.graph.factsAt k := by
        rw [he]
        exact factsAt_editFacts_of_ne _ hk
      rw [hf] at hi ⊢
      exact hs k i hi

theorem mem_fieldNodes {g : FlowGraph} (h : (g.factsAt n).hasFields) : n ∈ fieldNodes g := by
  cases hr : g.record? n with
  | none => simp [factsAt, hr, Facts.hasFields_iff] at h
  | some r =>
      rw [factsAt_of_record? hr] at h
      exact List.mem_map.mpr ⟨r, List.mem_filter.mpr ⟨mem_recorded_of_record? hr, h⟩, g.inStep.holders n r hr⟩

theorem waits_withFields {g : FlowGraph} (hg : g.Awaited) (hi : ((withFields g).graph.factsAt n).has i) :
    n ∈ (withFields g).worklist.pending := by
  rw [graph_withFields] at hi
  rcases awaited_withConstants hg n i hi with hc | hf
  · rw [(grows_withConstants g).shape.node? n] at hc
    exact List.foldlRecOn (motive := fun s : Propagation => n ∈ s.worklist.pending) _ _ (constant_waits hc)
      fun s h k _ => mem_pending_seedNode.mpr (.inl h)
  · exact foldl_reaches (Q := fun k s => k ∈ s.worklist.pending) (fun s k => mem_pending_seedNode.mpr (.inr rfl))
      (fun s k m h => mem_pending_seedNode.mpr (.inl h)) _ (withConstants g) n (mem_fieldNodes hf)

/-- At the start every node that knows something waits. -/
theorem waits_seed {g : FlowGraph} (hg : g.Awaited) :
    ∀ n i, ((seed { graph := g }).graph.factsAt n).has i → n ∈ (seed { graph := g }).worklist.pending := by
  rw [seed_eq]
  refine List.foldlRecOn
    (motive := fun s : Propagation => ∀ n i, (s.graph.factsAt n).has i → n ∈ s.worklist.pending) _ _
    (fun n i hi => waits_withFields hg hi) ?_
  intro s hs name _ n i hi
  rcases seedName_cases s name with he | ⟨hgraph, hw⟩
  · rw [he] at hi ⊢
    exact hs n i hi
  · rw [hgraph] at hi
    by_cases hn : name.node = n
    · subst hn
      rcases hw with hw | ⟨hw, hhas⟩
      · simp [hw]
      · rw [hw]
        exact hs _ _ hhas
    · rw [factsAt_editFacts_of_ne _ hn] at hi
      have hp := hs n i hi
      rcases hw with hw | ⟨hw, _⟩
      · simp [hw, hp]
      · rwa [hw]

end Propagation

end SinkFlow
