import SinkFlow.Proofs.Flow.Shape
import SinkFlow.Propagation.Pass

/-!
What a turn of a node may do. During its turn a node hands facts that it knows to its neighbours, one
neighbour after another, and nothing else happens (`Handout`). A neighbour that may still take an item is given
it, so that after a turn in the second pass every item of the node is served (`Served`).
-/

namespace SinkFlow

/-- What each step of a walk through a list makes sure of, and later steps do not undo, holds at its end for all
members of the list. -/
theorem foldl_reaches {α σ : Type} {f : σ → α → σ} {Q : α → σ → Prop} (reach : ∀ s a, Q a (f s a))
    (keep : ∀ s a b, Q a s → Q a (f s b)) (as : List α) (s : σ) : ∀ a ∈ as, Q a (as.foldl f s) := by
  induction as generalizing s with
  | nil => intro a ha; cases ha
  | cons b as ih =>
      intro a ha
      rcases List.mem_cons.mp ha with rfl | ha
      · exact List.foldlRecOn as f (reach s a) fun s' h b _ => keep s' a b h
      · exact ih (f s b) a ha

/-- A constraint leads from its source to its target, and back unless it is unidirectional. -/
inductive Constraint.Leads (c : Constraint) : NodeId → NodeId → Prop where
  | forth : c.Leads c.source c.target
  | back (h : c.kind.isBidirectional) : c.Leads c.target c.source

/-- The assignments that carry facts back from a node. -/
def GraphTables.assignsInto (g : GraphTables) (n : NodeId) : List Constraint :=
  (g.constraintsInto n).filter (·.kind = .geAssign)

theorem GraphTables.SameShape.assignsInto {g g' : GraphTables} (h : SameShape g g') (n : NodeId) :
    g'.assignsInto n = g.assignsInto n := by
  simp only [GraphTables.assignsInto, h.constraintsInto]

namespace FlowGraph

variable {g g' : FlowGraph} {n m : NodeId} {i : Item}

/-- A node knows all of some facts, or it cannot learn. -/
def Reached (g : FlowGraph) (m : NodeId) (facts : Facts) : Prop := g.isOpen m → facts ⊆ g.factsAt m

theorem Reached.mono {facts : Facts} (h : Grows g g') (hr : Reached g m facts) : Reached g' m facts := by
  intro ho i hi
  rw [h.shape.isOpen] at ho
  exact h.facts m i (hr ho i hi)

/-- An item of a node has come to the target of every constraint from it that can learn. -/
def Forwarded (g : FlowGraph) (n : NodeId) (i : Item) : Prop :=
  ∀ c ∈ g.constraintsFrom n, g.isOpen c.target → (g.factsAt c.target).has i

theorem Forwarded.mono (h : Grows g g') (hf : Forwarded g n i) : Forwarded g' n i := by
  intro c hc ho
  rw [h.shape.constraintsFrom] at hc
  rw [h.shape.isOpen] at ho
  exact h.facts _ i (hf c hc ho)

/-- An item of a node has come back to the source of every constraint into it that may take it. An append is
closed once its source knows a text. Of two operands of an assignment, one is closed to a facet once it knows an
item of it, and to what the other one has. -/
structure Returned (g : FlowGraph) (n : NodeId) (i : Item) : Prop where
  direct : ∀ c ∈ g.constraintsInto n, c.kind = .eq ∨ c.kind = .ge ∨ c.kind = .gePhi →
    g.isOpen c.source → (g.factsAt c.source).has i
  append : ∀ c ∈ g.constraintsInto n, c.kind = .geAppend →
    g.isOpen c.source → (g.factsAt c.source).lacks .texts → (g.factsAt c.source).has i
  single : ∀ c, g.assignsInto n = [c] → g.isOpen c.source → (g.factsAt c.source).has i
  left : ∀ l r, g.assignsInto n = [l, r] →
    g.isOpen l.source → (g.factsAt l.source).lacks i.facet → (g.factsAt r.source).has i
  right : ∀ l r, g.assignsInto n = [l, r] →
    g.isOpen r.source → (g.factsAt r.source).lacks i.facet → (g.factsAt l.source).has i

/-- No neighbour will take an item from a node any more: those that may take it have it. -/
structure Served (g : FlowGraph) (n : NodeId) (i : Item) : Prop extends Returned g n i where
  forward : Forwarded g n i

/-- What has been handed back stays so: open gates only close, and nothing is forgotten. -/
theorem Returned.mono (h : Grows g g') (hs : Returned g n i) : Returned g' n i where
  direct c hc hk ho := by
    rw [h.shape.constraintsInto] at hc
    rw [h.shape.isOpen] at ho
    exact h.facts _ i (hs.direct c hc hk ho)
  append c hc hk ho hl := by
    rw [h.shape.constraintsInto] at hc
    rw [h.shape.isOpen] at ho
    exact h.facts _ i (hs.append c hc hk ho (h.lacks hl))
  single c hc ho := by
    rw [h.shape.assignsInto] at hc
    rw [h.shape.isOpen] at ho
    exact h.facts _ i (hs.single c hc ho)
  left l r hc ho hl := by
    rw [h.shape.assignsInto] at hc
    rw [h.shape.isOpen] at ho
    exact h.facts _ i (hs.left l r hc ho (h.lacks hl))
  right l r hc ho hl := by
    rw [h.shape.assignsInto] at hc
    rw [h.shape.isOpen] at ho
    exact h.facts _ i (hs.right l r hc ho (h.lacks hl))

theorem Served.mono (h : Grows g g') (hs : Served g n i) : Served g' n i :=
  ⟨hs.toReturned.mono h, hs.forward.mono h⟩

theorem Served.withPhase (hs : Served g n i) (phase : Phase) : Served (g.inPhase phase) n i :=
  ⟨⟨hs.direct, hs.append, hs.single, hs.left, hs.right⟩, hs.forward⟩

end FlowGraph

namespace Propagation

open FlowGraph GraphTables

variable {s s' : Propagation} {n m k : NodeId} {facts : Facts} {step : Path} {i : Item}

theorem foldl_grows {α : Type} {f : Propagation → α → Propagation} (grows : ∀ s a, Grows s.graph (f s a).graph)
    (as : List α) (s : Propagation) : Grows s.graph (as.foldl f s).graph := by
  induction as generalizing s with
  | nil => exact .refl _
  | cons a as ih => exact (grows s a).trans (ih (f s a))

/-! ## Absorbing -/

theorem graph_absorb (s : Propagation) (m : NodeId) (facts : Facts) (step : Path) :
    (s.absorb m facts step).graph =
      if s.graph.isOpen m then s.graph.editFacts m (·.merge facts step) else s.graph := by
  simp only [absorb]
  split
  · split <;> rfl
  · rfl

theorem trace?_absorb (s : Propagation) (m : NodeId) (facts : Facts) (step : Path) (k : NodeId) (i : Item) :
    ((s.absorb m facts step).graph.factsAt k).trace? i =
      if m = k ∧ s.graph.isOpen m then
        ((s.graph.factsAt k).trace? i).or ((facts.trace? i).map (·.extend step))
      else (s.graph.factsAt k).trace? i := by
  rw [graph_absorb]
  by_cases ho : s.graph.isOpen m
  · by_cases hk : m = k
    · subst hk
      rw [if_pos ho, factsAt_editFacts_self _ (node?_isSome_of_isOpen ho), Facts.trace?_merge]
      simp [ho]
    · simp [ho, hk, factsAt_editFacts_of_ne]
  · simp [ho]

theorem has_absorb (s : Propagation) (m : NodeId) (facts : Facts) (step : Path) (k : NodeId) (i : Item) :
    ((s.absorb m facts step).graph.factsAt k).has i =
      ((s.graph.factsAt k).has i || (decide (m = k) && s.graph.isOpen m && facts.has i)) := by
  simp only [Facts.has_eq_isSome, trace?_absorb]
  by_cases hk : m = k
  · subst hk
    by_cases ho : s.graph.isOpen m <;> simp [ho]
  · simp [hk]

theorem grows_absorb (s : Propagation) (m : NodeId) (facts : Facts) (step : Path) :
    Grows s.graph (s.absorb m facts step).graph := by
  rw [graph_absorb]
  split
  · refine Grows.editFacts m (·.merge facts step) ?_
    intro i hi
    simp [hi]
  · exact .refl _

theorem reached_absorb (s : Propagation) (m : NodeId) (facts : Facts) (step : Path) :
    Reached (s.absorb m facts step).graph m facts := by
  intro ho i hi
  rw [(grows_absorb s m facts step).shape.isOpen] at ho
  simp [has_absorb, ho, hi]

theorem mem_pending_absorb :
    k ∈ (s.absorb m facts step).worklist.pending ↔
      k ∈ s.worklist.pending ∨ (k = m ∧ s.graph.isOpen m ∧ (s.graph.factsAt m).gains facts) := by
  simp only [absorb, Facts.learn_fst]
  split
  · rename_i ho
    split
    · rename_i hg
      simp [ho, hg]
    · rename_i hg
      simp [hg]
  · rename_i ho
    simp [ho]

theorem truncated_absorb (s : Propagation) (m : NodeId) (facts : Facts) (step : Path) :
    (s.absorb m facts step).stats.truncated = s.stats.truncated := by
  simp only [absorb]
  split
  · split <;> rfl
  · rfl

/-! ## Handing out -/

/-- Facts that may be handed from `n` to `m` in a turn that starts with `g`: `n` knows them, and those of them
that are served `m` has already. -/
structure Offer (g : FlowGraph) (n m : NodeId) (facts : Facts) : Prop where
  own : ∀ i t, facts.trace? i = some t → (g.factsAt n).trace? i = some t
  due : ∀ i, facts.has i → g.isOpen m → Served g n i → (g.factsAt m).has i

/-- What may happen in a turn of `n` that starts with `s`. -/
inductive Handout (s : Propagation) (n : NodeId) : Propagation → Prop where
  | start : Handout s n s
  | hand {s' : Propagation} {c : Constraint} {m : NodeId} {facts : Facts} (h : Handout s n s')
      (hc : c ∈ s.graph.constraints) (hl : c.Leads n m) (ho : Offer s.graph n m facts) :
      Handout s n (s'.absorb m facts c.path)
  | skip {s' : Propagation} (h : Handout s n s') :
      Handout s n { s' with stats := { s'.stats with skippedAssignJoins := s'.stats.skippedAssignJoins + 1 } }

namespace Handout

theorem grows (h : Handout s n s') : Grows s.graph s'.graph := by
  induction h with
  | start => exact .refl _
  | hand _ _ _ _ ih => exact ih.trans (grows_absorb _ _ _ _)
  | skip _ ih => exact ih

theorem factsAt_self (h : Handout s n s') (i : Item) :
    (s'.graph.factsAt n).trace? i = (s.graph.factsAt n).trace? i := by
  induction h with
  | start => rfl
  | skip _ ih => exact ih
  | @hand s' c m facts _ _ _ ho ih =>
      rw [trace?_absorb]
      split
      · cases hf : facts.trace? i with
        | none => simp [ih]
        | some t => simp [ih, ho.own i t hf]
      · exact ih

theorem has_self (h : Handout s n s') (i : Item) : (s'.graph.factsAt n).has i = (s.graph.factsAt n).has i := by
  simp only [Facts.has_eq_isSome, h.factsAt_self]

theorem pending (h : Handout s n s') (hk : k ∈ s.worklist.pending) : k ∈ s'.worklist.pending := by
  induction h with
  | start => exact hk
  | hand _ _ _ _ ih => exact mem_pending_absorb.mpr (.inl ih)
  | skip _ ih => exact ih

theorem factsAt_of_not_pending (h : Handout s n s') (hk : k ∉ s'.worklist.pending) (i : Item) :
    (s'.graph.factsAt k).has i = (s.graph.factsAt k).has i := by
  induction h with
  | start => rfl
  | skip _ ih => exact ih hk
  | @hand s' c m facts _ _ _ _ ih =>
      rw [mem_pending_absorb, not_or] at hk
      rw [← ih hk.1, has_absorb]
      by_cases hm : m = k ∧ s'.graph.isOpen m ∧ facts.has i
      · obtain ⟨rfl, ho, hi⟩ := hm
        have hg : ¬(s'.graph.factsAt m).gains facts := fun hg => hk.2 ⟨rfl, ho, hg⟩
        rw [Facts.gains_iff] at hg
        have hh : (s'.graph.factsAt m).has i := by
          cases hh : (s'.graph.factsAt m).has i with
          | true => rfl
          | false => exact absurd ⟨i, hi, hh⟩ hg
        simp [hh]
      · have hd : (decide (m = k) && s'.graph.isOpen m && facts.has i) = false := by
          simpa [and_assoc] using hm
        simp [hd]

theorem truncated (h : Handout s n s') : s'.stats.truncated = s.stats.truncated := by
  induction h with
  | start => rfl
  | hand _ _ _ _ ih => rw [truncated_absorb, ih]
  | skip _ ih => exact ih

end Handout

end Propagation

end SinkFlow
