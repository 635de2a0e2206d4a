import Mathlib.Algebra.Order.BigOperators.Group.Finset
import SinkFlow.Proofs.Flow.Operation
import SinkFlow.Proofs.Propagation.Run

/-!
How long a propagation takes. A merge that is counted brings an item to a node that did not have it, and no item
is brought that was not there after seeding, so nodes times items bounds the merges. A node waits because it was
seeded or because of such a merge, so seeds and merges bound the turns.
-/

namespace SinkFlow

namespace Facts

variable {f g : Facts} {i : Item}

/-- The known items as a finite set. -/
def itemSet (f : Facts) : Finset Item := f.items.keys.toFinset

theorem mem_itemSet : i ∈ f.itemSet ↔ f.has i := by
  rw [itemSet, List.mem_toFinset, mem_keys_iff_has]

theorem card_itemSet (f : Facts) : f.itemSet.card = f.size := by
  have hnodup : f.items.keys.Nodup := f.items.nodup
  rw [itemSet, List.toFinset_card_of_nodup hnodup]
  simp [size, Table.size, Table.keys]

theorem itemSet_subset (h : f ⊆ g) : f.itemSet ⊆ g.itemSet := by
  intro i hi
  rw [mem_itemSet] at hi ⊢
  exact h i hi

theorem size_le (h : f ⊆ g) : f.size ≤ g.size := by
  rw [← card_itemSet, ← card_itemSet]
  exact Finset.card_le_card (itemSet_subset h)

theorem size_lt (h : f ⊆ g) (hg : g.has i) (hf : f.has i = false) : f.size < g.size := by
  have hnew : i ∉ f.itemSet := by simp [mem_itemSet, hf]
  rw [← card_itemSet, ← card_itemSet]
  apply Finset.card_lt_card
  rw [Finset.ssubset_iff_of_subset (itemSet_subset h)]
  exact ⟨i, mem_itemSet.mpr hg, hnew⟩

end Facts

namespace FlowGraph

open GraphTables

variable {g g' : FlowGraph} {n : NodeId} {i : Item}

/-! ## Counting items -/

theorem nodeCount_eq {g g' : GraphTables} (h : SameShape g g') : g'.nodes.size = g.nodes.size := by rw [h.nodes]

/-- The items that are known at some node, each once. -/
def knownItems (g : FlowGraph) : Finset Item := (Finset.range g.nodes.size).biUnion fun n => (g.factsAt n).itemSet

/-- How many items are known at all nodes together. -/
def weight (g : FlowGraph) : Nat := ∑ n ∈ Finset.range g.nodes.size, (g.factsAt n).size

theorem mem_knownItems : i ∈ g.knownItems ↔ ∃ n, (g.factsAt n).has i := by
  simp only [knownItems, Finset.mem_biUnion, Finset.mem_range, Facts.mem_itemSet]
  constructor
  · rintro ⟨n, _, hi⟩
    exact ⟨n, hi⟩
  · rintro ⟨n, hi⟩
    exact ⟨n, node?_isSome_iff.mp (node?_isSome_of_has hi), hi⟩

theorem weight_le (g : FlowGraph) : g.weight ≤ g.nodes.size * g.knownItems.card := by
  have h : ∀ n ∈ Finset.range g.nodes.size, (g.factsAt n).size ≤ g.knownItems.card := by
    intro n _
    rw [← Facts.card_itemSet]
    refine Finset.card_le_card fun i hi => ?_
    exact mem_knownItems.mpr ⟨n, Facts.mem_itemSet.mp hi⟩
  simpa [weight] using Finset.sum_le_card_nsmul _ _ _ h

theorem card_knownItems_le (g : FlowGraph) : g.knownItems.card ≤ g.weight := by
  refine Finset.card_biUnion_le.trans (Finset.sum_le_sum fun n _ => ?_)
  exact (Facts.card_itemSet _).le

theorem Grows.weight_le (h : Grows g g') : g.weight ≤ g'.weight := by
  simp only [weight, nodeCount_eq h.shape]
  exact Finset.sum_le_sum fun n _ => Facts.size_le (h.facts n)

/-- An item that is new to a node makes the graph heavier. -/
theorem Grows.weight_lt (h : Grows g g') (hi' : (g'.factsAt n).has i) (hi : (g.factsAt n).has i = false) :
    g.weight < g'.weight := by
  have hn := node?_isSome_iff.mp (node?_isSome_of_has hi')
  rw [nodeCount_eq h.shape] at hn
  simp only [weight, nodeCount_eq h.shape]
  refine Finset.sum_lt_sum (fun k _ => Facts.size_le (h.facts k)) ⟨n, Finset.mem_range.mpr hn, ?_⟩
  exact Facts.size_lt (h.facts n) hi' hi

theorem sum_facts_recorded (g : FlowGraph) (k : Nat) :
    ((List.range k).filterMap g.record?).foldl (fun sum r => sum + r.facts.size) 0 =
      ∑ n ∈ Finset.range k, (g.factsAt n).size := by
  induction k with
  | zero => rfl
  | succ k ih =>
      rw [List.range_succ, List.filterMap_append, List.foldl_append, ih, Finset.sum_range_succ]
      cases hr : g.record? k with
      | none =>
          have hsize : (g.factsAt k).size = 0 := by
            rw [factsAt_of_record?_eq_none hr]
            rfl
          simp [hr, hsize]
      | some r => simp [hr, factsAt_of_record? hr]

theorem itemCount_eq_weight (g : FlowGraph) : Propagation.itemCount g = g.weight := by
  rw [Propagation.itemCount, recorded_eq, g.inStep.size, sum_facts_recorded, weight]

end FlowGraph

theorem Worklist.size_le {w : Worklist} {bound : Nat} (h : ∀ n ∈ w.pending, n < bound) : w.size ≤ bound := by
  have hsub : w.pending.toFinset ⊆ Finset.range bound := by
    intro n hn
    exact Finset.mem_range.mpr (h n (List.mem_toFinset.mp hn))
  have hcard := Finset.card_le_card hsub
  rwa [List.toFinset_card_of_nodup w.sound.nodup, Finset.card_range] at hcard

namespace Propagation

open FlowGraph GraphTables

variable {s s' s'' : Propagation} {n m : NodeId} {facts : Facts} {step : Path} {g : FlowGraph} {limit : Nat}
  {turn : Propagation → NodeId → Propagation}

/-! ## What turns do to the counts -/

/-- Every merge that is counted adds an item to a node. No item is new to the graph as a whole. -/
structure Earns (s s' : Propagation) : Prop where
  grows : Grows s.graph s'.graph
  items : s'.graph.knownItems ⊆ s.graph.knownItems
  merges : s'.stats.merges + s.graph.weight ≤ s.stats.merges + s'.graph.weight

/-- Every merge that is counted also lets at most one node wait. -/
structure Paced (s s' : Propagation) : Prop extends Earns s s' where
  pending : s'.worklist.size + s.stats.merges ≤ s.worklist.size + s'.stats.merges

theorem Earns.refl (s : Propagation) : Earns s s := ⟨.refl _, Finset.Subset.refl _, Nat.le_refl _⟩

theorem Earns.trans (h : Earns s s') (h' : Earns s' s'') : Earns s s'' where
  grows := h.grows.trans h'.grows
  items := h'.items.trans h.items
  merges := by
    have hmerges := h.merges
    have hmerges' := h'.merges
    omega

theorem Paced.refl (s : Propagation) : Paced s s := ⟨.refl s, Nat.le_refl _⟩

theorem Paced.trans (h : Paced s s') (h' : Paced s' s'') : Paced s s'' where
  toEarns := h.toEarns.trans h'.toEarns
  pending := by
    have hpending := h.pending
    have hpending' := h'.pending
    omega

theorem knownItems_absorb (m : NodeId) (step : Path) (hf : ∀ i, facts.has i → i ∈ s.graph.knownItems) :
    (s.absorb m facts step).graph.knownItems ⊆ s.graph.knownItems := by
  intro i hi
  obtain ⟨k, hk⟩ := mem_knownItems.mp hi
  rw [has_absorb, Bool.or_eq_true] at hk
  rcases hk with hk | hk
  · exact mem_knownItems.mpr ⟨k, hk⟩
  · simp only [Bool.and_eq_true] at hk
    exact hf i hk.2

theorem weight_lt_absorb (step : Path) (ho : s.graph.isOpen m) (hg : (s.graph.factsAt m).gains facts) :
    s.graph.weight < (s.absorb m facts step).graph.weight := by
  obtain ⟨i, hi, hnew⟩ := Facts.gains_iff.mp hg
  exact (grows_absorb s m facts step).weight_lt (n := m) (i := i) (by simp [has_absorb, ho, hi]) hnew

theorem size_push_le (w : Worklist) (n : NodeId) : (w.push n).size ≤ w.size + 1 := by
  simp only [Worklist.size, Worklist.pending_push, addOnce]
  split <;> simp

theorem Paced.absorb (hf : ∀ i, facts.has i → i ∈ s.graph.knownItems) : Paced s (s.absorb m facts step) := by
  have hgrows := grows_absorb s m facts step
  have hitems := knownItems_absorb m step hf
  by_cases ho : s.graph.isOpen m
  · by_cases hg : (s.graph.factsAt m).gains facts
    · have hweight := weight_lt_absorb step ho hg
      have hpush := size_push_le s.worklist m
      refine ⟨⟨hgrows, hitems, ?_⟩, ?_⟩
      · simp only [Propagation.absorb, Facts.learn_fst, ho, hg, if_true] at hweight ⊢
        omega
      · simp only [Propagation.absorb, Facts.learn_fst, ho, hg, if_true]
        omega
    · have hweight := hgrows.weight_le
      have hsame : s.absorb m facts step = { s with graph := (s.absorb m facts step).graph } := by
        simp [Propagation.absorb, ho, hg]
      rw [hsame]
      exact ⟨⟨hgrows, hitems, Nat.add_le_add_left hweight _⟩, Nat.le_refl _⟩
  · have hsame : s.absorb m facts step = s := by simp [Propagation.absorb, ho]
    rw [hsame]
    exact .refl s

theorem Handout.paced (h : Handout s n s') : Paced s s' := by
  induction h with
  | start => exact .refl s
  | @hand s' c m facts _ _ _ ho ih =>
      refine ih.trans (Paced.absorb fun i hi => ?_)
      obtain ⟨t, ht⟩ := Facts.trace?_of_has hi
      have hown := Facts.has_of_trace? (ho.own i t ht)
      exact mem_knownItems.mpr ⟨n, ih.grows.facts n i hown⟩
  | skip _ ih => exact ⟨⟨ih.grows, ih.items, ih.merges⟩, ih.pending⟩

theorem stats_settle (s : Propagation) (n : NodeId) : (s.settle n).stats = s.stats := by
  unfold settle
  split <;> rfl

theorem Paced.settle (s : Propagation) (n : NodeId) : Paced s (s.settle n) where
  grows := grows_settle s n
  items := by
    intro i hi
    obtain ⟨k, hk⟩ := mem_knownItems.mp hi
    rw [has_settle] at hk
    exact mem_knownItems.mpr ⟨k, hk⟩
  merges := by
    rw [stats_settle]
    exact Nat.add_le_add_left (grows_settle s n).weight_le _
  pending := by rw [worklist_settle, stats_settle]

/-- The turns that were taken in both passes. -/
def turnsTaken (s : Propagation) : Nat := s.stats.pass1Pops + s.stats.pass2Pops

theorem pops_absorb (s : Propagation) (m : NodeId) (facts : Facts) (step : Path) :
    (s.absorb m facts step).stats.pass1Pops = s.stats.pass1Pops ∧
      (s.absorb m facts step).stats.pass2Pops = s.stats.pass2Pops := by
  simp only [absorb]
  split
  · split <;> exact ⟨rfl, rfl⟩
  · exact ⟨rfl, rfl⟩

theorem Handout.pops (h : Handout s n s') :
    s'.stats.pass1Pops = s.stats.pass1Pops ∧ s'.stats.pass2Pops = s.stats.pass2Pops := by
  induction h with
  | start => exact ⟨rfl, rfl⟩
  | hand _ _ _ _ ih =>
      obtain ⟨hfirst, hsecond⟩ := pops_absorb _ _ _ _
      exact ⟨hfirst.trans ih.1, hsecond.trans ih.2⟩
  | skip _ ih => exact ih

/-- What a turn does to the counts. -/
structure Timed (turn : Propagation → NodeId → Propagation) : Prop where
  paced : ∀ s n, Paced s (turn s n)
  tick : ∀ s n, (turn s n).turnsTaken = s.turnsTaken + 1

theorem forwardTurn_timed : Timed forwardTurn where
  paced s n := by
    have h := (forwardTurn_handout s n).paced
    exact ⟨⟨h.grows, h.items, h.merges⟩, h.pending⟩
  tick s n := by
    obtain ⟨hfirst, hsecond⟩ := (forwardTurn_handout s n).pops
    simp only [turnsTaken, hfirst, hsecond]
    omega

theorem combinedTurn_timed : Timed combinedTurn where
  paced s n := by
    have h := (exchange_handout s n).paced.trans (Paced.settle (s.exchange n) n)
    rw [combinedTurn_eq]
    exact ⟨⟨h.grows, h.items, h.merges⟩, h.pending⟩
  tick s n := by
    obtain ⟨hfirst, hsecond⟩ := (exchange_handout s n).pops
    rw [combinedTurn_eq, turnsTaken, stats_settle, hfirst, hsecond]
    simp only [turnsTaken]
    omega

/-! ## Passes without a limit -/

/-- A pass without a limit: waiting nodes take their turns until none waits. -/
inductive Drains (turn : Propagation → NodeId → Propagation) : Propagation → Propagation → Prop where
  | done {s : Propagation} (h : s.worklist.pop = none) : Drains turn s s
  | turn {s s' : Propagation} {n : NodeId} {rest : Worklist} (h : s.worklist.pop = some (n, rest))
      (hd : Drains turn (turn { s with worklist := rest } n) s') : Drains turn s s'

theorem size_of_pop {w rest : Worklist} (h : w.pop = some (n, rest)) : w.size = rest.size + 1 := by
  simp [Worklist.size, Worklist.pending_of_pop h]

theorem size_eq_zero_iff {w : Worklist} : w.size = 0 ↔ w.pop = none := by
  rw [Worklist.pop_eq_none_iff, Worklist.size, List.length_eq_zero_iff]

/-- A limit that is not below the number of waiting nodes and of items that can still be new to a node is never
reached. Each turn lowers this sum: it takes a node off the list, and puts one back only for a new item. -/
theorem drains_drain (hturn : Timed turn) (bound : Nat) (hb : s.graph.nodes.size * s.graph.knownItems.card ≤ bound)
    (hl : s.worklist.size + (bound - s.graph.weight) ≤ limit) : Drains turn s (drain turn limit s) := by
  induction limit generalizing s with
  | zero =>
      have hsize : s.worklist.size = 0 := by omega
      have hempty : s.worklist.isEmpty := by simpa [Worklist.size, Worklist.isEmpty] using hsize
      simp only [drain, hempty, if_true]
      exact .done (size_eq_zero_iff.mp hsize)
  | succ limit ih =>
      cases hp : s.worklist.pop with
      | none =>
          simp only [drain, hp]
          exact .done hp
      | some next =>
          obtain ⟨n, rest⟩ := next
          simp only [drain, hp]
          have hpaced := hturn.paced { s with worklist := rest } n
          have hsize := size_of_pop hp
          have hcard := Finset.card_le_card hpaced.items
          have hnodes := nodeCount_eq hpaced.grows.shape
          simp only at hcard hnodes
          have hb' : (turn { s with worklist := rest } n).graph.nodes.size *
              (turn { s with worklist := rest } n).graph.knownItems.card ≤ bound := by
            rw [hnodes]
            exact (Nat.mul_le_mul_left _ hcard).trans hb
          have hweight := (weight_le (turn { s with worklist := rest } n).graph).trans hb'
          refine .turn hp (ih hb' ?_)
          have hmerges := hpaced.merges
          have hpending := hpaced.pending
          simp only at hmerges hpending
          omega

theorem Drains.truncated (hturn : ∀ s n, Turned s (turn s n)) (h : Drains turn s s') :
    s'.stats.truncated = s.stats.truncated := by
  induction h with
  | done _ => rfl
  | turn _ _ ih => rw [ih, (hturn _ _).truncated]

/-- What a whole pass does to the counts: every turn is that of a node that waited at the start or follows a merge. -/
structure Spent (s s' : Propagation) : Prop extends Earns s s' where
  turns : s'.turnsTaken + s.stats.merges ≤ s.turnsTaken + s.worklist.size + s'.stats.merges

theorem Drains.spent (hturn : Timed turn) (h : Drains turn s s') : Spent s s' := by
  induction h with
  | @done s _ => exact ⟨.refl s, by omega⟩
  | @turn s s' n rest hp _ ih =>
      have hpaced := hturn.paced { s with worklist := rest } n
      have htick := hturn.tick { s with worklist := rest } n
      have hsize := size_of_pop hp
      have hpending := hpaced.pending
      have hturns' := ih.turns
      have hearns := hpaced.toEarns.trans ih.toEarns
      refine ⟨⟨hearns.grows, hearns.items, hearns.merges⟩, ?_⟩
      simp only [turnsTaken] at hpending htick hturns' ⊢
      omega

/-! ## Both passes -/

/-- A propagation that is about to start: only nodes of the graph wait, and nothing has been counted. -/
structure Fresh (s : Propagation) : Prop where
  pending : ∀ n ∈ s.worklist.pending, n < s.graph.nodes.size
  merges : s.stats.merges = 0
  turns : s.turnsTaken = 0
  truncated : s.stats.truncated = false

theorem Fresh.seedNode (h : s.Fresh) (hn : n < s.graph.nodes.size) : (s.seedNode n).Fresh := by
  refine ⟨fun k hk => ?_, h.merges, h.turns, h.truncated⟩
  rcases mem_pending_seedNode.mp hk with hk | rfl
  · exact h.pending k hk
  · exact hn

theorem Fresh.seedConstant (h : s.Fresh) (n : NodeId) : (s.seedConstant n).Fresh := by
  rcases seedConstant_cases s n with ⟨_, he⟩ | ⟨l, hc, he⟩
  · rw [he]
    exact h
  · have hn : n < s.graph.nodes.size := by
      refine node?_isSome_iff.mp ?_
      cases hv : s.graph.node? n with
      | none => simp [hv] at hc
      | some v => rfl
    have hsize := nodeCount_eq (.editFacts s.graph n (·.addLiteral l))
    rw [he]
    refine Fresh.seedNode ⟨fun k hk => ?_, h.merges, h.turns, h.truncated⟩ (hsize.symm ▸ hn)
    exact hsize.symm ▸ h.pending k hk

theorem Fresh.seedName (h : s.Fresh) (name : AppendName) : (s.seedName name).Fresh := by
  have hsize := nodeCount_eq (.editFacts s.graph name.node (·.add (.text name.name) (some [name.statement])))
  simp only [Propagation.seedName]
  split
  · rename_i hn
    split
    · refine ⟨fun k hk => hsize.symm ▸ ?_, h.merges, h.turns, h.truncated⟩
      simp only [Worklist.pending_push, mem_addOnce] at hk
      rcases hk with hk | rfl
      · exact h.pending k hk
      · exact node?_isSome_iff.mp hn
    · exact ⟨fun k hk => hsize.symm ▸ h.pending k hk, h.merges, h.turns, h.truncated⟩
  · exact h

theorem lt_size_of_mem_recorded {r : NodeRecord} (h : r ∈ g.recorded) : r.node < g.nodes.size :=
  node?_isSome_iff.mp (node?_isSome_of_record? (Option.isSome_of_eq_some (mem_recorded.mp h)))

theorem fresh_seed (g : FlowGraph) : (seed { graph := g }).Fresh := by
  have hconstants : (withConstants g).Fresh :=
    List.foldlRecOn (motive := Fresh) _ _ ⟨nofun, rfl, rfl, rfl⟩ fun _ hs n _ => hs.seedConstant n
  have hfields : (withFields g).Fresh ∧ (withFields g).graph = (withConstants g).graph := by
    refine List.foldlRecOn (motive := fun s => Fresh s ∧ s.graph = (withConstants g).graph) _ _ ⟨hconstants, rfl⟩ ?_
    rintro s ⟨hs, hgraph⟩ n hn
    obtain ⟨r, hr, rfl⟩ := List.mem_map.mp hn
    exact ⟨hs.seedNode (hgraph.symm ▸ lt_size_of_mem_recorded (List.mem_filter.mp hr).1), hgraph⟩
  rw [seed_eq]
  exact List.foldlRecOn (motive := Fresh) _ _ hfields.1 fun _ hs name _ => hs.seedName name

theorem graph_reseed (s : Propagation) : s.reseed.graph = s.graph := rfl

theorem merges_reseed (s : Propagation) : s.reseed.stats.merges = s.stats.merges := rfl

theorem turnsTaken_reseed (s : Propagation) : s.reseed.turnsTaken = s.turnsTaken := rfl

theorem truncated_reseed (s : Propagation) : s.reseed.stats.truncated = s.stats.truncated := rfl

theorem Earns.of_reseed (h : Earns s.reseed s') : Earns s s' := ⟨h.grows, h.items, h.merges⟩

theorem size_reseed_le (s : Propagation) : s.reseed.worklist.size ≤ s.graph.nodes.size := by
  apply Worklist.size_le
  intro n hn
  simp only [reseed, mem_pending_foldl_push] at hn
  rcases hn with hn | hn
  · cases hn
  · obtain ⟨r, hr, rfl⟩ := List.mem_map.mp hn
    exact lt_size_of_mem_recorded (List.mem_filter.mp hr).1

/-- Without a limit of its own, neither pass is stopped. -/
theorem complete_drains (g : FlowGraph) :
    Drains forwardTurn (seed { graph := g }) (afterForward 0 g) ∧
      Drains combinedTurn (afterForward 0 g).reseed (complete 0 g) := by
  let seeded := seed { graph := g }
  have hfresh : seeded.Fresh := fresh_seed g
  have hlimit : turnLimit 0 seeded.graph = seeded.graph.nodes.size * (seeded.graph.weight + 1) := by
    simp [turnLimit, itemCount_eq_weight]
  have hitems : seeded.graph.nodes.size * seeded.graph.knownItems.card ≤
      seeded.graph.nodes.size * seeded.graph.weight := Nat.mul_le_mul_left _ (card_knownItems_le _)
  have hpending : seeded.worklist.size ≤ seeded.graph.nodes.size := Worklist.size_le hfresh.pending
  have hfirst : Drains forwardTurn seeded (afterForward 0 g) := by
    refine drains_drain forwardTurn_timed _ (Nat.le_refl _) ?_
    rw [hlimit, Nat.mul_succ]
    omega
  refine ⟨hfirst, ?_⟩
  have hspent := hfirst.spent forwardTurn_timed
  have hsize := nodeCount_eq hspent.grows.shape
  have hstart := size_reseed_le (afterForward 0 g)
  rw [complete_eq]
  refine drains_drain combinedTurn_timed (seeded.graph.nodes.size * seeded.graph.knownItems.card) ?_ ?_
  · rw [graph_reseed, hsize]
    exact Nat.mul_le_mul_left _ (Finset.card_le_card hspent.items)
  · rw [hlimit, Nat.mul_succ]
    omega

theorem complete_truncated (g : FlowGraph) : (complete 0 g).stats.truncated = false := by
  obtain ⟨hfirst, hsecond⟩ := complete_drains g
  have ht₁ := hfirst.truncated forwardTurn_turned
  have ht₂ := hsecond.truncated combinedTurn_turned
  rw [ht₂, truncated_reseed, ht₁, (fresh_seed g).truncated]

theorem complete_merges_le (g : FlowGraph) :
    (complete 0 g).stats.merges ≤ g.nodes.size * (seed { graph := g }).graph.knownItems.card := by
  obtain ⟨hfirst, hsecond⟩ := complete_drains g
  have hearns := (hfirst.spent forwardTurn_timed).toEarns.trans (hsecond.spent combinedTurn_timed).toEarns.of_reseed
  have hmerges := hearns.merges
  rw [(fresh_seed g).merges] at hmerges
  have hcard := Finset.card_le_card hearns.items
  have hweight := weight_le (complete 0 g).graph
  rw [nodeCount_eq (grows_complete 0 g).shape] at hweight
  have hbound := hweight.trans (Nat.mul_le_mul_left _ hcard)
  omega

theorem complete_turns_le (g : FlowGraph) :
    (complete 0 g).turnsTaken ≤ 2 * g.nodes.size + (complete 0 g).stats.merges := by
  obtain ⟨hfirst, hsecond⟩ := complete_drains g
  have hspent₁ := hfirst.spent forwardTurn_timed
  have hturns₁ := hspent₁.turns
  have hturns₂ := (hsecond.spent combinedTurn_timed).turns
  have hpending₁ := Worklist.size_le (fresh_seed g).pending
  have hpending₂ := size_reseed_le (afterForward 0 g)
  rw [nodeCount_eq hspent₁.grows.shape, nodeCount_eq (grows_seed g).shape] at hpending₂
  rw [nodeCount_eq (grows_seed g).shape] at hpending₁
  rw [(fresh_seed g).merges, (fresh_seed g).turns] at hturns₁
  rw [merges_reseed, turnsTaken_reseed] at hturns₂
  omega

end Propagation

namespace FlowGraph

/-- A propagation without a limit ends: in both passes there comes a time when no node waits. It takes at most one
merge for each node and each item that is known after seeding, and at most two turns for each node and one for each
merge. -/
theorem propagate_ends {g : FlowGraph} (hg : g.phase = .fieldsCollected) :
    let seeded := Propagation.seed { graph := g }
    ∃ s₁ s₂, Propagation.Drains .forwardTurn seeded s₁ ∧ Propagation.Drains .combinedTurn s₁.reseed s₂ ∧
      g.propagate 0 = .ok (s₂.stats, s₂.graph.inPhase .propagated) ∧
      s₂.stats.truncated = false ∧
      s₂.stats.merges ≤ g.nodes.size * seeded.graph.knownItems.card ∧
      s₂.stats.pass1Pops + s₂.stats.pass2Pops ≤
        2 * g.nodes.size + g.nodes.size * seeded.graph.knownItems.card := by
  intro seeded
  obtain ⟨hfirst, hsecond⟩ := Propagation.complete_drains g
  have hmerges := Propagation.complete_merges_le g
  have hturns := Propagation.complete_turns_le g
  refine ⟨_, _, hfirst, hsecond, propagate_eq_ok_iff.mpr ⟨hg, rfl, rfl⟩, Propagation.complete_truncated g, hmerges, ?_⟩
  exact hturns.trans (Nat.add_le_add_left hmerges _)

/-- Two values that are sums of each other, and a text that flows into both. -/
def circleGraph : FlowGraph :=
  .after 0
    [.beginBuilding, .valueNode 0 0 (some (.text "secret")), .valueNode 0 1 none, .valueNode 0 2 none,
      .addConstraint 1 .geAssign 0 [⟨0, 1⟩], .addConstraint 1 .geAssign 2 [⟨0, 1⟩],
      .addConstraint 2 .geAssign 1 [⟨0, 2⟩], .addConstraint 2 .gePhi 0 [⟨0, 3⟩], .finishFields]

theorem circleGraph_ends :
    circleGraph.phase = .fieldsCollected ∧
      ∃ stats g', circleGraph.propagate 0 = .ok (stats, g') ∧ stats.truncated = false ∧ stats.merges ≤ 3 * 1 ∧
        stats.pass1Pops + stats.pass2Pops ≤ 2 * 3 + 3 * 1 := by
  have hitems : (Propagation.seed { graph := circleGraph }).graph.knownItems.card = 1 := by decide +kernel
  obtain ⟨_, s₂, _, _, hprop, htruncated, hmerges, hturns⟩ := propagate_ends (g := circleGraph) rfl
  rw [hitems] at hmerges hturns
  exact ⟨rfl, _, _, hprop, htruncated, hmerges, hturns⟩

end FlowGraph

end SinkFlow
