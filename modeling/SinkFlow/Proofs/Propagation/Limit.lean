import SinkFlow.Proofs.Propagation.Termination

/-!
What a limit on the turns of a pass does to a propagation. A pass that ends within its limit is the pass without one
(`drain_eq_of_drains`), and a pass that is not reported as stopped has ended (`drains_of_not_truncated`). So a limit
that is not reported has changed nothing.
-/

namespace SinkFlow

namespace Propagation

open FlowGraph

variable {s s' s'' : Propagation} {n : NodeId} {turn : Propagation → NodeId → Propagation}
  {count : PropagationStats → Nat} {limit cap : Nat} {g : FlowGraph}

/-! ## Passes without a limit -/

/-- What every turn keeps holds after a pass without a limit. -/
theorem Drains.keeps {P : Propagation → Prop}
    (step : ∀ s n rest, s.worklist.pop = some (n, rest) → P s → P (turn { s with worklist := rest } n))
    (h : Drains turn s s') (hs : P s) : P s' := by
  induction h with
  | done _ => exact hs
  | turn hp _ ih => exact ih (step _ _ _ hp hs)

/-- There is one way in which a pass without a limit can go. -/
theorem Drains.unique (h : Drains turn s s') (h' : Drains turn s s'') : s' = s'' := by
  induction h with
  | done hp =>
      cases h' with
      | done _ => rfl
      | turn hp' _ => simp [hp] at hp'
  | turn hp _ ih =>
      cases h' with
      | done hp' => simp [hp] at hp'
      | turn hp' hd' =>
          rw [hp, Option.some.injEq, Prod.mk.injEq] at hp'
          obtain ⟨rfl, rfl⟩ := hp'
          exact ih hd'

/-! ## Counting turns -/

/-- A count that goes up by one in every turn of a pass and is left alone when the pass is stopped. -/
structure Clocks (turn : Propagation → NodeId → Propagation) (count : PropagationStats → Nat) : Prop where
  tick : ∀ s n, count (turn s n).stats = count s.stats + 1
  halt : ∀ stats, count { stats with truncated := true } = count stats

theorem forwardTurn_clocks : Clocks forwardTurn PropagationStats.pass1Pops where
  tick s n := (forwardTurn_handout s n).pops.1
  halt _ := rfl

theorem combinedTurn_clocks : Clocks combinedTurn PropagationStats.pass2Pops where
  tick s n := by
    rw [combinedTurn_eq, stats_settle]
    exact (exchange_handout s n).pops.2
  halt _ := rfl

theorem pass2Pops_forwardTurn (s : Propagation) (n : NodeId) :
    (s.forwardTurn n).stats.pass2Pops = s.stats.pass2Pops := (forwardTurn_handout s n).pops.2

theorem pass1Pops_combinedTurn (s : Propagation) (n : NodeId) :
    (s.combinedTurn n).stats.pass1Pops = s.stats.pass1Pops := by
  rw [combinedTurn_eq, stats_settle]
  exact (exchange_handout s n).pops.1

theorem Drains.count_le (hcount : Clocks turn count) (h : Drains turn s s') : count s.stats ≤ count s'.stats := by
  refine h.keeps (P := fun s' => count s.stats ≤ count s'.stats) (fun s' n rest _ hs => ?_) (Nat.le_refl _)
  rw [hcount.tick]
  exact Nat.le_succ_of_le hs

/-- A pass never takes more turns than it may. -/
theorem count_drain_le (hcount : Clocks turn count) (limit : Nat) (s : Propagation) :
    count (drain turn limit s).stats ≤ count s.stats + limit := by
  induction limit generalizing s with
  | zero =>
      simp only [drain]
      split
      · exact Nat.le_refl _
      · rw [hcount.halt]
        exact Nat.le_refl _
  | succ limit ih =>
      simp only [drain]
      split
      · exact Nat.le_add_right _ _
      · rename_i n rest _
        have htick : count (turn { s with worklist := rest } n).stats = count s.stats + 1 := hcount.tick _ n
        have hrest := ih (turn { s with worklist := rest } n)
        omega

/-! ## A pass with a limit -/

/-- A pass that needs no more turns than it may take is not stopped. That includes the turn which uses up the limit, if
no node waits after it. -/
theorem drain_eq_of_drains (hcount : Clocks turn count) (h : Drains turn s s')
    (hlimit : count s'.stats ≤ count s.stats + limit) : drain turn limit s = s' := by
  induction h generalizing limit with
  | @done s hp =>
      have hempty : s.worklist.isEmpty := List.isEmpty_iff.mpr (Worklist.pop_eq_none_iff.mp hp)
      cases limit with
      | zero => simp [drain, hempty]
      | succ limit => simp [drain, hp]
  | @turn s s' n rest hp hd ih =>
      have htick : count (turn { s with worklist := rest } n).stats = count s.stats + 1 := hcount.tick _ n
      have hle := hd.count_le hcount
      obtain ⟨limit, rfl⟩ : ∃ fewer, limit = fewer + 1 := ⟨limit - 1, by omega⟩
      simp only [drain, hp]
      exact ih (by omega)

/-- A pass that is not reported as stopped has come to its end. -/
theorem drains_of_not_truncated (h : (drain turn limit s).stats.truncated = false) :
    Drains turn s (drain turn limit s) := by
  induction limit generalizing s with
  | zero =>
      simp only [drain] at h ⊢
      split at h
      · rename_i he
        rw [if_pos he]
        exact .done (Worklist.pop_eq_none_iff.mpr (List.isEmpty_iff.mp he))
      · cases h
  | succ limit ih =>
      cases hp : s.worklist.pop with
      | none =>
          simp only [drain, hp]
          exact .done hp
      | some next =>
          simp only [drain, hp] at h ⊢
          exact .turn hp (ih h)

/-! ## Both passes -/

/-- Both passes without a limit, from the seeds of a graph on. -/
def Completes (g : FlowGraph) (s : Propagation) : Prop :=
  ∃ s₁, Drains forwardTurn (seed { graph := g }) s₁ ∧ Drains combinedTurn s₁.reseed s

theorem Completes.unique (h : Completes g s) (h' : Completes g s') : s = s' := by
  obtain ⟨s₁, hfirst, hsecond⟩ := h
  obtain ⟨s₁', hfirst', hsecond'⟩ := h'
  obtain rfl := hfirst.unique hfirst'
  exact hsecond.unique hsecond'

theorem completes_complete (g : FlowGraph) : Completes g (complete 0 g) := ⟨_, complete_drains g⟩

theorem pops_seed (g : FlowGraph) :
    (seed { graph := g }).stats.pass1Pops = 0 ∧ (seed { graph := g }).stats.pass2Pops = 0 :=
  Nat.add_eq_zero_iff.mp (fresh_seed g).turns

theorem turnLimit_of_pos (hcap : 0 < cap) (g : FlowGraph) : turnLimit cap g = cap := by
  rw [turnLimit, if_neg (Nat.ne_of_gt hcap)]

theorem pass2Pops_afterForward (cap : Nat) (g : FlowGraph) : (afterForward cap g).stats.pass2Pops = 0 := by
  refine drain_keeps (P := fun s => s.stats.pass2Pops = 0) (fun s n rest _ hs => ?_) (fun _ hs => hs) _ _
    (pops_seed g).2
  rw [pass2Pops_forwardTurn]
  exact hs

theorem pass1Pops_complete (cap : Nat) (g : FlowGraph) :
    (complete cap g).stats.pass1Pops = (afterForward cap g).stats.pass1Pops := by
  rw [complete_eq]
  refine drain_keeps (P := fun s => s.stats.pass1Pops = (afterForward cap g).stats.pass1Pops)
    (fun s n rest _ hs => ?_) (fun _ hs => hs) _ _ rfl
  rw [pass1Pops_combinedTurn]
  exact hs

theorem complete_pops_le (hcap : 0 < cap) (g : FlowGraph) :
    (complete cap g).stats.pass1Pops ≤ cap ∧ (complete cap g).stats.pass2Pops ≤ cap := by
  constructor
  · have hfirst := count_drain_le forwardTurn_clocks cap (seed { graph := g })
    rw [(pops_seed g).1, Nat.zero_add] at hfirst
    rw [pass1Pops_complete, afterForward, turnLimit_of_pos hcap]
    exact hfirst
  · have hsecond := count_drain_le combinedTurn_clocks cap (afterForward cap g).reseed
    have hstart : (afterForward cap g).reseed.stats.pass2Pops = 0 := pass2Pops_afterForward cap g
    rw [hstart, Nat.zero_add] at hsecond
    rw [complete_eq, turnLimit_of_pos hcap]
    exact hsecond

/-- A limit that neither pass needs to exceed changes nothing. -/
theorem complete_eq_of_pops_le (hcap : 0 < cap) (h₁ : (complete 0 g).stats.pass1Pops ≤ cap)
    (h₂ : (complete 0 g).stats.pass2Pops ≤ cap) : complete cap g = complete 0 g := by
  obtain ⟨hdrains₁, hdrains₂⟩ := complete_drains g
  have hfirst : afterForward cap g = afterForward 0 g := by
    rw [afterForward, turnLimit_of_pos hcap]
    refine drain_eq_of_drains forwardTurn_clocks hdrains₁ ?_
    rw [← pass1Pops_complete, (pops_seed g).1, Nat.zero_add]
    exact h₁
  rw [complete_eq, hfirst, turnLimit_of_pos hcap]
  exact drain_eq_of_drains combinedTurn_clocks hdrains₂ (Nat.le_trans h₂ (Nat.le_add_left _ _))

/-- If neither pass was stopped, both have come to their ends. -/
theorem completes_of_not_truncated (ht : (complete cap g).stats.truncated = false) : Completes g (complete cap g) := by
  rw [complete_eq] at ht ⊢
  have hfirst : (afterForward cap g).stats.truncated = false := by
    cases h : (afterForward cap g).stats.truncated with
    | false => rfl
    | true => simp [drain_truncated combinedTurn_turned _ ((truncated_reseed _).trans h)] at ht
  exact ⟨_, drains_of_not_truncated hfirst, drains_of_not_truncated ht⟩

end Propagation

open Propagation

/-- A limit on the turns of the passes is kept, and it changes nothing unless it is reported: the report is missing just
if neither pass takes more turns without a limit, and then the outcome is that without one. -/
theorem FlowGraph.propagate_limited {g : FlowGraph} (hg : g.phase = .fieldsCollected) {cap : Nat} (hcap : 0 < cap) :
    ∃ full stats g', Completes g full ∧ full.stats.truncated = false ∧
      g.propagate 0 = .ok (full.stats, full.graph.inPhase .propagated) ∧
      g.propagate cap = .ok (stats, g') ∧ g'.phase = .propagated ∧ stats.pass1Pops ≤ cap ∧ stats.pass2Pops ≤ cap ∧
      (stats.truncated = false ↔ full.stats.pass1Pops ≤ cap ∧ full.stats.pass2Pops ≤ cap) ∧
      (stats.truncated = false → g.propagate cap = g.propagate 0) := by
  have hok : ∀ cap, g.propagate cap =
      .ok ((complete cap g).stats, (complete cap g).graph.inPhase .propagated) :=
    fun cap => propagate_eq_ok_iff.mpr ⟨hg, rfl, rfl⟩
  obtain ⟨hpops₁, hpops₂⟩ := complete_pops_le hcap g
  have hsame : (complete cap g).stats.truncated = false → complete cap g = complete 0 g :=
    fun ht => (completes_of_not_truncated ht).unique (completes_complete g)
  refine ⟨complete 0 g, _, _, completes_complete g, complete_truncated g, hok 0, hok cap, rfl, hpops₁, hpops₂,
    ⟨?_, ?_⟩, ?_⟩
  · intro ht
    rw [← hsame ht]
    exact ⟨hpops₁, hpops₂⟩
  · rintro ⟨h₁, h₂⟩
    rw [complete_eq_of_pops_le hcap h₁ h₂, complete_truncated]
  · intro ht
    rw [hok cap, hok 0, hsame ht]

theorem FlowGraph.circleGraph_limited :
    circleGraph.phase = .fieldsCollected ∧ 0 < 3 ∧ 0 < 2 ∧ circleGraph.propagate 3 = circleGraph.propagate 0 ∧
      ∃ stats g', circleGraph.propagate 2 = .ok (stats, g') ∧ stats.truncated ∧ stats.pass1Pops ≤ 2 := by
  have hturns : (complete 0 circleGraph).stats.pass1Pops = 3 ∧ (complete 0 circleGraph).stats.pass2Pops = 2 := by
    decide +kernel
  obtain ⟨_, _, _, hfull, _, _, _, _, _, _, hends, hsame⟩ :=
    propagate_limited (g := circleGraph) rfl (show 0 < 3 by decide)
  obtain rfl := hfull.unique (completes_complete circleGraph)
  obtain ⟨_, stats, g', hfull', _, _, hok, _, hpops, _, hstopped, _⟩ :=
    propagate_limited (g := circleGraph) rfl (show 0 < 2 by decide)
  obtain rfl := hfull'.unique (completes_complete circleGraph)
  rw [hturns.1, hturns.2] at hends hstopped
  refine ⟨rfl, by decide, by decide, hsame (hends.mpr (by decide)), stats, g', hok, ?_, hpops⟩
  simpa using hstopped

end SinkFlow
