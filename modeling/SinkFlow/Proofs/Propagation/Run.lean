import SinkFlow.Proofs.Propagation.Seed
import SinkFlow.Proofs.Propagation.Turn

/-!
Whole passes, from what their turns do. What handouts and settling keep holds after a propagation
(`complete_keeps`), and if no pass was stopped at the limit, every item has been served (`complete_served`).
-/

namespace SinkFlow

namespace Propagation

open FlowGraph GraphTables

variable {s s' : Propagation} {n : NodeId} {turn : Propagation → NodeId → Propagation} {g : FlowGraph} {cap : Nat}

/-! ## A pass -/

/-- What every turn and stopping at the limit keep holds after a pass. -/
theorem drain_keeps {P : Propagation → Prop}
    (step : ∀ s n rest, s.worklist.pop = some (n, rest) → P s → P (turn { s with worklist := rest } n))
    (halt : ∀ s, P s → P { s with stats := { s.stats with truncated := true } })
    (limit : Nat) (s : Propagation) (h : P s) : P (drain turn limit s) := by
  induction limit generalizing s with
  | zero =>
      simp only [drain]
      split
      · exact h
      · exact halt s h
  | succ limit ih =>
      simp only [drain]
      split
      · exact h
      · rename_i n rest hp
        exact ih _ (step s n rest hp h)

theorem drain_pending (limit : Nat) (s : Propagation) (h : (drain turn limit s).stats.truncated = false) :
    (drain turn limit s).worklist.pending = [] := by
  induction limit generalizing s with
  | zero =>
      simp only [drain] at h ⊢
      split at h
      · rename_i he
        rw [if_pos he]
        exact List.isEmpty_iff.mp he
      · cases h
  | succ limit ih =>
      simp only [drain] at h ⊢
      split at h
      · rename_i hp
        exact Worklist.pop_eq_none_iff.mp hp
      · exact ih _ h

theorem drain_truncated (hturn : ∀ s n, Turned s (turn s n)) (limit : Nat) (h : s.stats.truncated = true) :
    (drain turn limit s).stats.truncated = true := by
  refine drain_keeps (P := fun s => s.stats.truncated = true) ?_ (fun _ _ => rfl) limit s h
  intro s n rest _ ht
  rw [(hturn _ n).truncated]
  exact ht

/-- Every item of a node that does not wait has been dealt with. -/
def Quiet (Done : FlowGraph → NodeId → Item → Prop) (s : Propagation) : Prop :=
  ∀ n, n ∉ s.worklist.pending → ∀ i, (s.graph.factsAt n).has i → Done s.graph n i

/-- A turn that deals with the items of its node keeps the others quiet: a node that learns something in it
waits, and what was dealt with before stays so while the graph grows. -/
theorem Turned.quiet {Done : FlowGraph → NodeId → Item → Prop} {rest : Worklist}
    (mono : ∀ g g' k i, Grows g g' → Done g k i → Done g' k i) (hp : s.worklist.pop = some (n, rest))
    (h : Turned { s with worklist := rest } s') (hdone : ∀ i, (s'.graph.factsAt n).has i → Done s'.graph n i)
    (hq : Quiet Done s) : Quiet Done s' := by
  intro k hk i hi
  by_cases hkn : k = n
  · subst hkn
    exact hdone i hi
  · have hrest : k ∉ rest.pending := fun hr => hk (h.pending k hr)
    have hold : k ∉ s.worklist.pending := by
      rw [Worklist.pending_of_pop hp]
      simp [hkn, hrest]
    rw [h.still k hk] at hi
    exact mono _ _ k i h.grows (hq k hold i hi)

theorem drain_quiet {Done : FlowGraph → NodeId → Item → Prop}
    (mono : ∀ g g' k i, Grows g g' → Done g k i → Done g' k i) (hturn : ∀ s n, Turned s (turn s n))
    (hdone : ∀ s n i, ((turn s n).graph.factsAt n).has i → Done (turn s n).graph n i)
    (limit : Nat) (hq : Quiet Done s) : Quiet Done (drain turn limit s) := by
  refine drain_keeps (P := Quiet Done) ?_ (fun _ h => h) limit s hq
  intro s n rest hp hs
  exact (hturn _ n).quiet mono hp (hdone _ n) hs

/-! ## Both passes -/

def afterForward (cap : Nat) (g : FlowGraph) : Propagation :=
  drain forwardTurn (turnLimit cap (seed { graph := g }).graph) (seed { graph := g })

theorem complete_eq (cap : Nat) (g : FlowGraph) :
    complete cap g = drain combinedTurn (turnLimit cap (seed { graph := g }).graph) (afterForward cap g).reseed := rfl

/-- What every turn of the first pass keeps holds after it. -/
theorem afterForward_keeps {P : FlowGraph → Prop} (step : ∀ s n, P s.graph → P (forwardTurn s n).graph)
    (h : P (seed { graph := g }).graph) : P (afterForward cap g).graph := by
  apply drain_keeps (P := fun s => P s.graph) _ (fun _ h => h) _ _ h
  intro s n rest _ hs
  exact step _ n hs

theorem grows_afterForward (cap : Nat) (g : FlowGraph) :
    Grows (seed { graph := g }).graph (afterForward cap g).graph :=
  afterForward_keeps (fun s n h => h.trans (forwardTurn_handout s n).grows) (.refl _)

/-- What handouts keep, and settling a node all of whose items are served, holds after a propagation if it holds
after seeding. -/
theorem complete_keeps {P : FlowGraph → Prop}
    (handout : ∀ s n s', Handout s n s' → P s.graph → P s'.graph)
    (settle : ∀ (s : Propagation) n, (∀ i, (s.graph.factsAt n).has i → Served s.graph n i) →
      P s.graph → P (s.settle n).graph)
    (h : P (seed { graph := g }).graph) : P (complete cap g).graph := by
  have hforward : P (afterForward cap g).graph :=
    afterForward_keeps (fun s n hs => handout _ n _ (forwardTurn_handout s n) hs) h
  rw [complete_eq]
  refine drain_keeps (P := fun s => P s.graph) ?_ (fun _ h => h) _ _ hforward
  intro s n rest _ hs
  exact settle _ n (fun _ hi => served_exchange hi) (handout _ n _ (exchange_handout _ n) hs)

theorem grows_seeded (cap : Nat) (g : FlowGraph) : Grows (seed { graph := g }).graph (complete cap g).graph := by
  refine complete_keeps (P := Grows (seed { graph := g }).graph) ?_ ?_ (.refl _)
  · intro s n s' h hs
    exact hs.trans h.grows
  · intro s n _ hs
    exact hs.trans (grows_settle s n)

theorem grows_complete (cap : Nat) (g : FlowGraph) : Grows g (complete cap g).graph :=
  (grows_seed g).trans (grows_seeded cap g)

theorem forwarded_afterForward (hg : g.Awaited) (ht : (afterForward cap g).stats.truncated = false) :
    ∀ n i, ((afterForward cap g).graph.factsAt n).has i → Forwarded (afterForward cap g).graph n i := by
  have hstart : Quiet Forwarded (seed { graph := g }) := fun n hn i hi => absurd (waits_seed hg n i hi) hn
  have hquiet : Quiet Forwarded (afterForward cap g) :=
    drain_quiet (fun _ _ _ _ h hf => hf.mono h) forwardTurn_turned (fun _ _ _ hi => forwarded_forwardTurn hi) _ hstart
  intro n i hi
  have hp : (afterForward cap g).worklist.pending = [] := drain_pending _ _ ht
  exact hquiet n (by simp [hp]) i hi

theorem mem_pending_foldl_push {k : NodeId} (ns : List NodeId) (w : Worklist) :
    k ∈ (ns.foldl Worklist.push w).pending ↔ k ∈ w.pending ∨ k ∈ ns := by
  induction ns generalizing w with
  | nil => simp
  | cons n ns ih => simp [ih, or_assoc]

theorem constraintsInto_of_not_reseeded (hn : n ∉ s.reseed.worklist.pending) {i : Item}
    (hi : (s.graph.factsAt n).has i) : s.graph.constraintsInto n = [] := by
  obtain ⟨r, hr⟩ := Option.isSome_iff_exists.mp (record?_isSome_of_has hi)
  rw [factsAt_of_record? hr] at hi
  have hne : r.facts.isEmpty = false := by
    cases he : r.facts.isEmpty with
    | false => rfl
    | true => simp [Facts.isEmpty_iff.mp he i] at hi
  cases hback : r.backward with
  | nil => simp [constraintsInto, backwardIds_of_record? hr, hback]
  | cons id ids =>
      refine absurd ?_ hn
      simp only [reseed, mem_pending_foldl_push]
      refine .inr (List.mem_map.mpr ⟨r, List.mem_filter.mpr ⟨mem_recorded_of_record? hr, ?_⟩, ?_⟩)
      · simp [hback, hne]
      · exact s.graph.inStep.holders n r hr

theorem returned_of_constraintsInto {i : Item} (h : g.constraintsInto n = []) : Returned g n i := by
  have ha : g.assignsInto n = [] := by simp [assignsInto, h]
  refine ⟨?_, ?_, ?_, ?_, ?_⟩ <;> simp [h, ha]

/-- After a propagation in which no pass was stopped, every item has been served. -/
theorem complete_served (hg : g.Awaited) (ht : (complete cap g).stats.truncated = false) :
    ∀ n i, ((complete cap g).graph.factsAt n).has i → Served (complete cap g).graph n i := by
  rw [complete_eq] at ht ⊢
  have ht₁ : (afterForward cap g).reseed.stats.truncated = false := by
    cases h : (afterForward cap g).reseed.stats.truncated with
    | false => rfl
    | true =>
        rw [drain_truncated combinedTurn_turned _ h] at ht
        cases ht
  have hforward := forwarded_afterForward hg ht₁
  have hstart : Quiet Served (afterForward cap g).reseed := fun n hn i hi =>
    ⟨returned_of_constraintsInto (constraintsInto_of_not_reseeded hn hi), hforward n i hi⟩
  have hquiet : Quiet Served (drain combinedTurn (turnLimit cap (seed { graph := g }).graph) _) :=
    drain_quiet (fun _ _ _ _ h hs => hs.mono h) combinedTurn_turned (fun _ _ _ hi => served_combinedTurn hi) _ hstart
  intro n i hi
  exact hquiet n (by simp [drain_pending _ _ ht]) i hi

end Propagation

/-- Propagation succeeds on the graphs whose fields have been collected, and gives what both passes leave. -/
theorem FlowGraph.propagate_eq_ok_iff {g g' : FlowGraph} {cap : Nat} {stats : PropagationStats} :
    g.propagate cap = .ok (stats, g') ↔
      g.phase = .fieldsCollected ∧ stats = (Propagation.complete cap g).stats ∧
        g' = (Propagation.complete cap g).graph.inPhase .propagated := by
  have hphase : (Propagation.complete cap g).graph.phase = g.phase := (Propagation.grows_complete cap g).shape.phase
  by_cases hg : g.phase = .fieldsCollected
  · have hfinish : (Propagation.complete cap g).graph.advance .fieldsCollected .propagated =
        .ok ((Propagation.complete cap g).graph.inPhase .propagated) :=
      advance_eq_ok_iff.mpr ⟨hphase.trans hg, rfl⟩
    simp [propagate, finishPropagation, GraphTables.expect, hg, hfinish, bind, Except.bind, pure, Except.pure, eq_comm]
  · simp [propagate, GraphTables.expect, hg, bind, Except.bind]

theorem FlowGraph.factsAt_propagate {g g' : FlowGraph} {cap : Nat} {stats : PropagationStats}
    (h : g.propagate cap = .ok (stats, g')) (n : NodeId) :
    g'.factsAt n = (Propagation.complete cap g).graph.factsAt n := by
  obtain ⟨_, _, rfl⟩ := propagate_eq_ok_iff.mp h
  exact GraphTables.factsAt_congr rfl n

end SinkFlow
