import SinkFlow.Proofs.Propagation.Handout

/-!
The turns of both passes: each of their steps is a handout, a turn in the first pass forwards every item of its
node, and a turn in the second pass serves every item of its node.
-/

namespace SinkFlow

namespace Facts

theorem has_assignJoin_right (joined left right : Facts) (i : Item) :
    (joined.assignJoin left right).2.has i = (right.lacks i.facet && !left.has i && joined.has i) := by
  rw [assignJoin_snd, has_assignJoin]

theorem trace?_of_assignJoin {joined left right : Facts} {i : Item} {t : Trace}
    (h : (joined.assignJoin left right).1.trace? i = some t) : joined.trace? i = some t := by
  rw [trace?_assignJoin] at h
  split at h
  · exact h
  · cases h

theorem trace?_phiDelta {joined : Facts} {branches : List Facts} {i : Item} {t : Trace}
    (h : (joined.phiDelta branches).trace? i = some t) : joined.trace? i = some t := by
  cases branches with
  | nil => exact h
  | cons b bs => exact trace?_of_filter h

theorem has_phiDelta {joined : Facts} (branches : List Facts) {i : Item} (hi : joined.has i) :
    (joined.phiDelta branches).has i ∨ ∀ b ∈ branches, b.has i := by
  cases branches with
  | nil => exact .inl hi
  | cons b bs =>
      cases ha : (b :: bs).all (·.has i) with
      | true => exact .inr (List.all_eq_true.mp ha)
      | false =>
          left
          simp only [phiDelta, has_filter, ha]
          simpa using hi

end Facts

namespace Propagation

open FlowGraph GraphTables

variable {s s' : Propagation} {n m : NodeId} {joined facts : Facts} {step : Path} {i : Item} {c : Constraint}

/-! ## Handing back -/

theorem grows_handBack (s : Propagation) (m : NodeId) (facts : Facts) (step : Path) :
    Grows s.graph (s.handBack m facts step).graph := by
  unfold handBack
  split
  · exact .refl _
  · exact grows_absorb s m facts step

theorem reached_handBack (s : Propagation) (m : NodeId) (facts : Facts) (step : Path) :
    Reached (s.handBack m facts step).graph m facts := by
  unfold handBack
  split
  · rename_i he
    intro _ i hi
    simp [Facts.isEmpty_iff.mp he i] at hi
  · exact reached_absorb s m facts step

theorem grows_backwardOver (joined : Facts) (s : Propagation) (c : Constraint) :
    Grows s.graph (backwardOver joined s c).graph := by
  unfold backwardOver
  split
  · exact grows_handBack _ _ _ _
  · exact grows_handBack _ _ _ _
  · split
    · exact grows_handBack _ _ _ _
    · exact .refl _
  all_goals exact .refl _

theorem grows_backwardAssign (joined : Facts) (s : Propagation) (cs : List Constraint) :
    Grows s.graph (backwardAssign joined s cs).graph := by
  unfold backwardAssign
  split
  · exact .refl _
  · exact grows_handBack _ _ _ _
  · exact (grows_handBack _ _ _ _).trans (grows_handBack _ _ _ _)
  · exact .refl _

theorem grows_backwardPhi (joined : Facts) (s : Propagation) (cs : List Constraint) :
    Grows s.graph (backwardPhi joined s cs).graph := by
  simp only [backwardPhi]
  split
  · exact .refl _
  · refine foldl_grows (fun s' c => ?_) cs s
    exact grows_handBack s' c.source _ c.path

/-- What going back over one constraint makes sure of. -/
def OverReached (joined : Facts) (c : Constraint) (g : FlowGraph) : Prop :=
  (c.kind = .eq ∨ c.kind = .ge → Reached g c.source joined) ∧
    (c.kind = .geAppend → (g.factsAt c.source).lacks .texts → Reached g c.source joined)

theorem overReached_backwardOver (joined : Facts) (s : Propagation) (c : Constraint) :
    OverReached joined c (backwardOver joined s c).graph := by
  cases hk : c.kind with
  | geAppend =>
      refine ⟨by simp [hk], fun _ hl => ?_⟩
      have hl' := (grows_backwardOver joined s c).lacks hl
      simp only [backwardOver, hk, hl', if_true]
      exact reached_handBack _ _ _ _
  | eq | ge =>
      refine ⟨fun _ => ?_, by simp [hk]⟩
      simp only [backwardOver, hk]
      exact reached_handBack _ _ _ _
  | geAssign | gePhi | geUnidirectional => simp [OverReached, hk]

theorem OverReached.mono {g g' : FlowGraph} (h : Grows g g') (ho : OverReached joined c g) :
    OverReached joined c g' :=
  ⟨fun hk => (ho.1 hk).mono h, fun hk hl => (ho.2 hk (h.lacks hl)).mono h⟩

/-- After two operands have been served, one that still knows nothing of a facet was not offered the item, so the
other one has it. -/
theorem backwardAssign_pair (joined : Facts) (s : Propagation) (l r : Constraint) (hi : joined.has i) :
    let g := (backwardAssign joined s [l, r]).graph
    (g.isOpen l.source → (g.factsAt l.source).lacks i.facet → (g.factsAt r.source).has i) ∧
      (g.isOpen r.source → (g.factsAt r.source).lacks i.facet → (g.factsAt l.source).has i) := by
  intro g
  have hg : Grows s.graph g := grows_backwardAssign joined s [l, r]
  -- `g` is the graph after both operands were handed their parts, the left one first.
  let toLeft := (joined.assignJoin (s.graph.factsAt l.source) (s.graph.factsAt r.source)).1
  let toRight := (joined.assignJoin (s.graph.factsAt l.source) (s.graph.factsAt r.source)).2
  have hleft : Reached g l.source toLeft := (reached_handBack s l.source toLeft l.path).mono (grows_handBack _ _ _ _)
  have hright : Reached g r.source toRight := reached_handBack _ r.source toRight r.path
  constructor
  · intro ho hl
    cases hr : (s.graph.factsAt r.source).has i with
    | true => exact hg.facts _ i hr
    | false =>
        have hto : toLeft.has i := by simp [toLeft, Facts.has_assignJoin, hg.lacks hl, hr, hi]
        have hhas := hleft ho i hto
        simp [Facts.lacks_iff.mp hl i rfl] at hhas
  · intro ho hl
    cases hr : (s.graph.factsAt l.source).has i with
    | true => exact hg.facts _ i hr
    | false =>
        have hto : toRight.has i := by simp [toRight, Facts.has_assignJoin_right, hg.lacks hl, hr, hi]
        have hhas := hright ho i hto
        simp [Facts.lacks_iff.mp hl i rfl] at hhas

theorem reached_foldl_handBack (facts : Facts) (cs : List Constraint) (s : Propagation) :
    ∀ c ∈ cs, Reached (cs.foldl (fun s c => s.handBack c.source facts c.path) s).graph c.source facts :=
  foldl_reaches (Q := fun (c : Constraint) (s : Propagation) => Reached s.graph c.source facts)
    (fun s c => reached_handBack s c.source facts c.path) (fun _ _ _ hr => hr.mono (grows_handBack _ _ _ _)) cs s

/-- Every branch of a join comes to know all that the join knows, if it can learn. -/
theorem reached_backwardPhi (joined : Facts) (s : Propagation) {phis : List Constraint} (hc : c ∈ phis) :
    Reached (backwardPhi joined s phis).graph c.source joined := by
  have hg := grows_backwardPhi joined s phis
  have hne : phis.isEmpty = false := by
    cases phis with
    | nil => cases hc
    | cons _ _ => rfl
  intro ho i hi
  rcases Facts.has_phiDelta (phis.map fun c => s.graph.factsAt c.source) hi with hd | hall
  · simp only [backwardPhi, hne] at ho ⊢
    exact reached_foldl_handBack _ phis s c hc ho i hd
  · exact hg.facts _ i (hall _ (List.mem_map_of_mem hc))

/-! ## What the steps make sure of -/

theorem grows_forwardStep (s : Propagation) (n : NodeId) : Grows s.graph (s.forwardStep n).graph :=
  foldl_grows (fun s (c : Constraint) => grows_absorb s c.target _ c.path) _ s

theorem forwarded_forwardStep (hi : (s.graph.factsAt n).has i) : Forwarded (s.forwardStep n).graph n i := by
  intro c hc ho
  rw [(grows_forwardStep s n).shape.constraintsFrom] at hc
  have hreach := foldl_reaches
    (Q := fun (c : Constraint) (s' : Propagation) => Reached s'.graph c.target (s.graph.factsAt n))
    (fun s' c => reached_absorb s' c.target (s.graph.factsAt n) c.path)
    (fun _ _ _ hr => hr.mono (grows_absorb _ _ _ _)) (s.graph.constraintsFrom n) s c hc
  exact hreach ho i hi

theorem grows_backwardStep (s : Propagation) (n : NodeId) : Grows s.graph (s.backwardStep n).graph :=
  ((foldl_grows (grows_backwardOver _) _ s).trans (grows_backwardAssign _ _ _)).trans (grows_backwardPhi _ _ _)

/-- The three parts of a step back leave nothing of what the node knows behind. -/
theorem returned_backwardStep (hi : (s.graph.factsAt n).has i) : Returned (s.backwardStep n).graph n i := by
  let joined := s.graph.factsAt n
  let s₁ := (s.graph.constraintsInto n).foldl (backwardOver joined) s
  let s₂ := backwardAssign joined s₁ (s.graph.assignsInto n)
  have hassign : Grows s₂.graph (s.backwardStep n).graph := grows_backwardPhi _ _ _
  have hover : Grows s₁.graph (s.backwardStep n).graph := (grows_backwardAssign _ _ _).trans hassign
  have hshape := (grows_backwardStep s n).shape
  have hoverReached : ∀ c ∈ s.graph.constraintsInto n, OverReached joined c (s.backwardStep n).graph :=
    fun c hc => (foldl_reaches (Q := fun c (s : Propagation) => OverReached joined c s.graph) (overReached_backwardOver joined)
      (fun _ _ _ ho => ho.mono (grows_backwardOver _ _ _)) _ s c hc).mono hover
  refine ⟨?_, ?_, ?_, ?_, ?_⟩
  · intro c hc hk ho
    rw [hshape.constraintsInto] at hc
    rcases hk with hk | hk | hk
    · exact (hoverReached c hc).1 (.inl hk) ho i hi
    · exact (hoverReached c hc).1 (.inr hk) ho i hi
    · exact reached_backwardPhi joined s₂ (List.mem_filter.mpr ⟨hc, by simp [hk]⟩) ho i hi
  · intro c hc hk ho hl
    rw [hshape.constraintsInto] at hc
    exact (hoverReached c hc).2 hk hl ho i hi
  · intro c hc ho
    rw [hshape.assignsInto] at hc
    have hreach : Reached s₂.graph c.source joined := by
      simp only [s₂, hc, backwardAssign]
      exact reached_handBack _ _ _ _
    exact hreach.mono hassign ho i hi
  all_goals
    intro l r hc ho hl
    rw [hshape.assignsInto] at hc
    rw [hassign.shape.isOpen] at ho
    have hpair := backwardAssign_pair joined s₁ l r hi
    rw [← hc] at hpair
    refine hassign.facts _ i ?_
  · exact hpair.1 ho (hassign.lacks hl)
  · exact hpair.2 ho (hassign.lacks hl)

/-! ## The steps are handouts -/

theorem leads_of_mem_constraintsInto (hc : c ∈ s.graph.constraintsInto n) : c.Leads n c.source := by
  obtain ⟨_, rfl, hb⟩ := mem_constraintsInto.mp hc
  exact .back hb

namespace Handout

theorem offer (hj : ∀ i t, facts.trace? i = some t → (s.graph.factsAt n).trace? i = some t)
    (due : ∀ i, Served s.graph n i → s.graph.isOpen m → (s.graph.factsAt m).has i) : Offer s.graph n m facts :=
  ⟨hj, fun i _ ho hs => due i hs ho⟩

theorem handBack (h : Handout s n s') (hc : c ∈ s.graph.constraintsInto n) (ho : Offer s.graph n c.source facts) :
    Handout s n (s'.handBack c.source facts c.path) := by
  unfold Propagation.handBack
  split
  · exact h
  · exact h.hand (mem_constraintsInto.mp hc).1 (leads_of_mem_constraintsInto hc) ho

theorem forwardStep (h : Handout s n s') : Handout s n (s'.forwardStep n) := by
  refine List.foldlRecOn _ _ h ?_
  intro s'' h'' c hc
  rw [h.grows.shape.constraintsFrom] at hc
  obtain ⟨hmem, hsource⟩ := mem_constraintsFrom.mp hc
  have hl : c.Leads n c.target := hsource ▸ .forth
  refine h''.hand hmem hl (offer ?_ fun i hs ho => hs.forward c hc ho)
  intro i t hi
  rwa [← h.factsAt_self i]

section Back

variable (h : Handout s n s') (hj : ∀ i t, joined.trace? i = some t → (s.graph.factsAt n).trace? i = some t)

include h hj

theorem backwardOver (hc : c ∈ s.graph.constraintsInto n) : Handout s n (Propagation.backwardOver joined s' c) := by
  cases hk : c.kind with
  | eq | ge =>
      simp only [Propagation.backwardOver, hk]
      exact h.handBack hc (offer hj fun i hs ho => hs.direct c hc (by simp [hk]) ho)
  | geAppend =>
      simp only [Propagation.backwardOver, hk]
      split
      · rename_i hl
        exact h.handBack hc (offer hj fun i hs ho => hs.append c hc hk ho (h.grows.lacks hl))
      · exact h
  | geAssign | gePhi | geUnidirectional => simpa only [Propagation.backwardOver, hk] using h

/-- Of two operands, one is handed an item only if it knows nothing of its facet and the other one lacks it. An
item that is served goes to neither. -/
theorem backwardAssign : Handout s n (Propagation.backwardAssign joined s' (s.graph.assignsInto n)) := by
  have hmem : ∀ c ∈ s.graph.assignsInto n, c ∈ s.graph.constraintsInto n := fun c hc => (List.mem_filter.mp hc).1
  unfold Propagation.backwardAssign
  split
  · exact h
  · rename_i c hcs
    exact h.handBack (hmem c (by simp [hcs])) (offer hj fun i hs ho => hs.single c hcs ho)
  · rename_i l r hcs
    -- `Served` says of a served item that the other operand has it, so the join leaves it out.
    let shares := joined.assignJoin (s'.graph.factsAt l.source) (s'.graph.factsAt r.source)
    have hleft : Offer s.graph n l.source shares.1 := by
      refine ⟨fun i t hi => hj i t (Facts.trace?_of_assignJoin hi), fun i hi ho hs => ?_⟩
      simp only [shares, Facts.has_assignJoin, Bool.and_eq_true, Bool.not_eq_true'] at hi
      have hr := h.grows.facts _ i (hs.left l r hcs ho (h.grows.lacks hi.1.1))
      simp [hi.1.2] at hr
    have hright : Offer s.graph n r.source shares.2 := by
      refine ⟨fun i t hi => hj i t (Facts.trace?_of_assignJoin (Facts.assignJoin_snd .. ▸ hi)), fun i hi ho hs => ?_⟩
      simp only [shares, Facts.has_assignJoin_right, Bool.and_eq_true, Bool.not_eq_true'] at hi
      have hl := h.grows.facts _ i (hs.right l r hcs ho (h.grows.lacks hi.1.1))
      simp [hi.1.2] at hl
    exact (h.handBack (hmem l (by simp [hcs])) hleft).handBack (hmem r (by simp [hcs])) hright
  · exact h.skip

theorem backwardPhi :
    Handout s n (Propagation.backwardPhi joined s' ((s.graph.constraintsInto n).filter (·.kind = .gePhi))) := by
  simp only [Propagation.backwardPhi]
  split
  · exact h
  · refine List.foldlRecOn _ _ h ?_
    intro s'' h'' c hc
    obtain ⟨hmem, hk⟩ := List.mem_filter.mp hc
    have hk' : c.kind = .gePhi := by simpa using hk
    exact h''.handBack hmem (offer (fun i t hi => hj i t (Facts.trace?_phiDelta hi)) fun i hs ho =>
      hs.direct c hmem (by simp [hk']) ho)

end Back

theorem backwardStep (h : Handout s n s') : Handout s n (s'.backwardStep n) := by
  have hj : ∀ i t, (s'.graph.factsAt n).trace? i = some t → (s.graph.factsAt n).trace? i = some t := by
    intro i t hi
    rwa [← h.factsAt_self i]
  have hinto := h.grows.shape.constraintsInto n
  have hover : Handout s n ((s.graph.constraintsInto n).foldl (Propagation.backwardOver (s'.graph.factsAt n)) s') :=
    List.foldlRecOn _ _ h fun _ h'' _ hc => h''.backwardOver hj hc
  simp only [Propagation.backwardStep, hinto]
  exact (hover.backwardAssign hj).backwardPhi hj

end Handout

/-! ## Settling -/

theorem graph_settle (s : Propagation) (n : NodeId) :
    (s.settle n).graph =
      if (s.graph.node? n).any fun v => !v.isRetained then s.graph.editFacts n (·.dropTraces) else s.graph := by
  unfold settle
  split <;> rfl

theorem trace?_settle (s : Propagation) (n k : NodeId) (i : Item) :
    ((s.settle n).graph.factsAt k).trace? i =
      if n = k ∧ (s.graph.node? n).any (fun v => !v.isRetained) then ((s.graph.factsAt k).trace? i).map fun _ => none
      else (s.graph.factsAt k).trace? i := by
  rw [graph_settle]
  by_cases hv : (s.graph.node? n).any fun v => !v.isRetained
  · have hn : (s.graph.node? n).isSome := by
      cases hn : s.graph.node? n with
      | none => simp [hn] at hv
      | some v => rfl
    by_cases hk : n = k
    · subst hk
      rw [if_pos hv, factsAt_editFacts_self _ hn, Facts.trace?_dropTraces]
      simp [hv]
    · simp [hv, hk, factsAt_editFacts_of_ne]
  · simp [hv]

theorem has_settle (s : Propagation) (n k : NodeId) (i : Item) :
    ((s.settle n).graph.factsAt k).has i = (s.graph.factsAt k).has i := by
  simp only [Facts.has_eq_isSome, trace?_settle]
  split <;> simp

theorem grows_settle (s : Propagation) (n : NodeId) : Grows s.graph (s.settle n).graph where
  shape := by
    rw [graph_settle]
    split
    · exact .editFacts _ _ _
    · exact .refl _
  facts k := by
    intro i hi
    rwa [has_settle]
  records k := by
    intro hk
    rw [graph_settle]
    split
    · exact record?_editFacts _ _ _ _ hk
    · exact hk

theorem worklist_settle (s : Propagation) (n : NodeId) : (s.settle n).worklist = s.worklist := by
  unfold settle
  split <;> rfl

theorem truncated_settle (s : Propagation) (n : NodeId) : (s.settle n).stats.truncated = s.stats.truncated := by
  unfold settle
  split <;> rfl

/-! ## Turns -/

/-- What a turn of a node does to the items and to the worklist. -/
structure Turned (s s' : Propagation) : Prop where
  grows : Grows s.graph s'.graph
  pending : ∀ k ∈ s.worklist.pending, k ∈ s'.worklist.pending
  still : ∀ k, k ∉ s'.worklist.pending → ∀ i, (s'.graph.factsAt k).has i = (s.graph.factsAt k).has i
  truncated : s'.stats.truncated = s.stats.truncated

theorem Handout.turned (h : Handout s n s') : Turned s s' :=
  ⟨h.grows, fun _ hk => h.pending hk, fun _ hk i => h.factsAt_of_not_pending hk i, h.truncated⟩

theorem Turned.settle (h : Turned s s') (n : NodeId) : Turned s (s'.settle n) where
  grows := h.grows.trans (grows_settle s' n)
  pending k hk := by
    rw [worklist_settle]
    exact h.pending k hk
  still k hk i := by
    rw [worklist_settle] at hk
    rw [has_settle, h.still k hk]
  truncated := by rw [truncated_settle, h.truncated]

theorem forwardTurn_handout (s : Propagation) (n : NodeId) :
    Handout { s with stats := { s.stats with pass1Pops := s.stats.pass1Pops + 1 } } n (s.forwardTurn n) :=
  Handout.start.forwardStep

theorem forwardTurn_turned (s : Propagation) (n : NodeId) : Turned s (s.forwardTurn n) := by
  have h := (forwardTurn_handout s n).turned
  exact ⟨h.grows, h.pending, h.still, h.truncated⟩

theorem forwarded_forwardTurn (hi : ((s.forwardTurn n).graph.factsAt n).has i) :
    Forwarded (s.forwardTurn n).graph n i := by
  rw [(forwardTurn_handout s n).has_self] at hi
  exact forwarded_forwardStep hi

/-- A turn in the second pass up to the moment when the traces are dropped. -/
def exchange (s : Propagation) (n : NodeId) : Propagation :=
  ({ s with stats := { s.stats with pass2Pops := s.stats.pass2Pops + 1 } }.backwardStep n).forwardStep n

theorem combinedTurn_eq (s : Propagation) (n : NodeId) : s.combinedTurn n = (s.exchange n).settle n := rfl

theorem exchange_handout (s : Propagation) (n : NodeId) :
    Handout { s with stats := { s.stats with pass2Pops := s.stats.pass2Pops + 1 } } n (s.exchange n) :=
  Handout.start.backwardStep.forwardStep

theorem combinedTurn_turned (s : Propagation) (n : NodeId) : Turned s (s.combinedTurn n) := by
  have h := (exchange_handout s n).turned.settle n
  rw [combinedTurn_eq]
  exact ⟨h.grows, h.pending, h.still, h.truncated⟩

/-- After the steps back and forth, and before its traces are dropped, every item of the node is served. -/
theorem served_exchange (hi : ((s.exchange n).graph.factsAt n).has i) : Served (s.exchange n).graph n i := by
  rw [(exchange_handout s n).has_self] at hi
  let s₁ : Propagation := { s with stats := { s.stats with pass2Pops := s.stats.pass2Pops + 1 } }
  have hback : Returned (s₁.backwardStep n).graph n i := returned_backwardStep hi
  have hi' : ((s₁.backwardStep n).graph.factsAt n).has i := (grows_backwardStep s₁ n).facts n i hi
  exact ⟨hback.mono (grows_forwardStep _ n), forwarded_forwardStep hi'⟩

theorem served_combinedTurn (hi : ((s.combinedTurn n).graph.factsAt n).has i) :
    Served (s.combinedTurn n).graph n i := by
  rw [combinedTurn_eq] at hi ⊢
  rw [has_settle] at hi
  exact (served_exchange hi).mono (grows_settle _ n)

end Propagation

end SinkFlow
