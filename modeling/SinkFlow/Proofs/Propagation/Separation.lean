import SinkFlow.Proofs.Flow.Operation
import SinkFlow.Proofs.Propagation.Termination

/-!
Parts of a graph that no constraint connects do not see each other in a propagation. A turn of a node in one part leaves
the other parts alone, and what it does there does not depend on them. All nodes wait in one list, so the parts take
their turns in an order that depends on all of them, but those of one part come in an order of their own.
-/

namespace SinkFlow

/-! ## Lists -/

section Lists

variable {α : Type} [DecidableEq α] {p : α → Bool} {as bs : List α} {a : α}

theorem filter_addOnce (p : α → Bool) (as : List α) (a : α) :
    (addOnce as a).filter p = if p a then addOnce (as.filter p) a else as.filter p := by
  unfold addOnce
  by_cases hp : p a
  · by_cases ha : a ∈ as <;> simp [hp, ha]
  · by_cases ha : a ∈ as <;> simp [hp, ha]

theorem filter_addOnce_congr (h : as.filter p = bs.filter p) (a : α) :
    (addOnce as a).filter p = (addOnce bs a).filter p := by
  rw [filter_addOnce, filter_addOnce, h]

theorem filter_foldl_addOnce (p : α → Bool) (bs as : List α) :
    (bs.foldl addOnce as).filter p = (bs.filter p).foldl addOnce (as.filter p) := by
  induction bs generalizing as with
  | nil => rfl
  | cons b bs ih =>
      rw [List.foldl_cons, ih, filter_addOnce]
      by_cases hp : p b <;> simp [hp]

end Lists

/-! ## Facts that show the same traces -/

namespace Facts

variable {f f' other other' : Facts}

theorem has_congr (h : f.trace? = f'.trace?) (i : Item) : f.has i = f'.has i := by
  rw [has_eq_isSome, has_eq_isSome, h]

theorem lacks_congr (h : f.trace? = f'.trace?) (facet : Facet) : f.lacks facet = f'.lacks facet := by
  rw [Bool.eq_iff_iff, lacks_iff, lacks_iff]
  simp only [has_congr h]

theorem isEmpty_congr (h : f.trace? = f'.trace?) : f.isEmpty = f'.isEmpty := by
  rw [Bool.eq_iff_iff, isEmpty_iff, isEmpty_iff]
  simp only [has_congr h]

theorem hasFields_congr (h : f.trace? = f'.trace?) : f.hasFields = f'.hasFields := by
  simp only [hasFields, lacks_congr h]

theorem gains_congr (h : f.trace? = f'.trace?) (ho : other.trace? = other'.trace?) :
    f.gains other = f'.gains other' := by
  rw [Bool.eq_iff_iff, gains_iff, gains_iff]
  simp only [has_congr h, has_congr ho]

theorem add_congr (h : f.trace? = f'.trace?) (i : Item) (t : Trace) : (f.add i t).trace? = (f'.add i t).trace? := by
  funext j
  rw [trace?_add, trace?_add, h]

theorem merge_congr (h : f.trace? = f'.trace?) (ho : other.trace? = other'.trace?) (step : Path) :
    (f.merge other step).trace? = (f'.merge other' step).trace? := by
  funext i
  rw [trace?_merge, trace?_merge, h, ho]

theorem dropTraces_congr (h : f.trace? = f'.trace?) : f.dropTraces.trace? = f'.dropTraces.trace? := by
  funext i
  rw [trace?_dropTraces, trace?_dropTraces, h]

theorem filter_congr {p q : Item → Bool} (h : f.trace? = f'.trace?) (hp : ∀ i, p i = q i) :
    (f.filter p).trace? = (f'.filter q).trace? := by
  funext i
  rw [trace?_filter, trace?_filter, h, hp]

theorem assignJoin_congr {left left' right right' : Facts} (h : f.trace? = f'.trace?)
    (hl : left.trace? = left'.trace?) (hr : right.trace? = right'.trace?) :
    (f.assignJoin left right).1.trace? = (f'.assignJoin left' right').1.trace? ∧
      (f.assignJoin left right).2.trace? = (f'.assignJoin left' right').2.trace? := by
  rw [assignJoin_snd, assignJoin_snd]
  constructor <;> funext i <;> rw [trace?_assignJoin, trace?_assignJoin, h]
  · rw [lacks_congr hl, has_congr hr]
  · rw [lacks_congr hr, has_congr hl]

theorem phiDelta_congr {α : Type} {as : List α} {branch branch' : α → Facts} (h : f.trace? = f'.trace?)
    (hb : ∀ a ∈ as, (branch a).trace? = (branch' a).trace?) :
    (f.phiDelta (as.map branch)).trace? = (f'.phiDelta (as.map branch')).trace? := by
  cases as with
  | nil => exact h
  | cons a as =>
      refine filter_congr h fun i => ?_
      have hall : ∀ b ∈ a :: as, (branch b).has i = (branch' b).has i := fun b hm => has_congr (hb b hm) i
      simp only [List.all_map]
      congr 1
      rw [Bool.eq_iff_iff]
      simp only [List.all_eq_true, Function.comp]
      exact forall₂_congr fun b hm => by rw [hall b hm]

end Facts

/-! ## Graphs that agree on a part -/

/-- What can be seen of a record: of the facts the traces of all items, and all that it lists. -/
def NodeRecord.look (r : NodeRecord) :
    (Item → Option Trace) × List ConstraintId × List ConstraintId × List ChainId :=
  (r.facts.trace?, r.forward, r.backward, r.chains)

namespace FlowGraph

open GraphTables (SameShape)

variable {A : Set NodeId} {g h k : FlowGraph} {n m : NodeId}

/-- What can be seen of a node of a graph, and of its record if it has one. -/
def look? (g : FlowGraph) (n : NodeId) :
    Option Node × Option ((Item → Option Trace) × List ConstraintId × List ConstraintId × List ChainId) :=
  (g.node? n, (g.record? n).map NodeRecord.look)

/-- No constraint connects a part of the nodes to the others. -/
def Separated (A : Set NodeId) (g : FlowGraph) : Prop := ∀ c ∈ g.constraints, c.source ∈ A ↔ c.target ∈ A

theorem Separated.of_constraints (hs : g.Separated A) (hc : h.constraints = g.constraints) : h.Separated A := by
  rw [Separated, hc]
  exact hs

/-- Two graphs with as many nodes, the same constraints and the same chains, which look the same on a part. -/
structure AgreeOn (A : Set NodeId) (g h : FlowGraph) : Prop where
  size : h.nodes.size = g.nodes.size
  constraints : h.constraints = g.constraints
  chains : h.chains = g.chains
  nodes : ∀ n ∈ A, h.look? n = g.look? n

namespace AgreeOn

theorem refl (A : Set NodeId) (g : FlowGraph) : AgreeOn A g g := ⟨rfl, rfl, rfl, fun _ _ => rfl⟩

theorem symm (hg : AgreeOn A g h) : AgreeOn A h g :=
  ⟨hg.size.symm, hg.constraints.symm, hg.chains.symm, fun n hn => (hg.nodes n hn).symm⟩

theorem trans (hg : AgreeOn A g h) (hh : AgreeOn A h k) : AgreeOn A g k where
  size := hh.size.trans hg.size
  constraints := hh.constraints.trans hg.constraints
  chains := hh.chains.trans hg.chains
  nodes n hn := (hh.nodes n hn).trans (hg.nodes n hn)

theorem separated (hg : AgreeOn A g h) (hs : g.Separated A) : h.Separated A := hs.of_constraints hg.constraints

theorem constraintsFrom (hg : AgreeOn A g h) (n : NodeId) : h.constraintsFrom n = g.constraintsFrom n := by
  simp only [constraintsFrom_eq, hg.constraints]

theorem constraintsInto (hg : AgreeOn A g h) (n : NodeId) : h.constraintsInto n = g.constraintsInto n := by
  simp only [constraintsInto_eq, hg.constraints]

section Inside

variable (hg : AgreeOn A g h) (hn : n ∈ A)

include hg hn

theorem node? : h.node? n = g.node? n := congrArg Prod.fst (hg.nodes n hn)

theorem record_look : (h.record? n).map NodeRecord.look = (g.record? n).map NodeRecord.look :=
  congrArg Prod.snd (hg.nodes n hn)

theorem record_any_eq {p : NodeRecord → Bool} (hp : ∀ r r' : NodeRecord, r.look = r'.look → p r = p r') :
    (h.record? n).any p = (g.record? n).any p := by
  have hlook := hg.record_look hn
  cases hr : g.record? n <;> cases hr' : h.record? n <;> simp [hr, hr'] at hlook ⊢
  exact hp _ _ hlook

theorem isOpen : h.isOpen n = g.isOpen n := by
  rw [GraphTables.isOpen, hg.node? hn, GraphTables.isOpen]

theorem trace? : (h.factsAt n).trace? = (g.factsAt n).trace? := by
  have hlook := hg.record_look hn
  cases hr : g.record? n <;> cases hr' : h.record? n <;>
    simp [hr, hr', NodeRecord.look, GraphTables.factsAt] at hlook ⊢
  exact hlook.1

end Inside

theorem editFacts {edit edit' : Facts → Facts} (hg : AgreeOn A g h) (n : NodeId)
    (he : ∀ f f' : Facts, f.trace? = f'.trace? → (edit f).trace? = (edit' f').trace?) :
    AgreeOn A (g.editFacts n edit) (h.editFacts n edit') where
  size := hg.size
  constraints := hg.constraints
  chains := hg.chains
  nodes m hm := by
    have hlook := hg.record_look hm
    have hsize : h.records.size = g.records.size := by rw [h.inStep.size, hg.size, g.inStep.size]
    refine Prod.ext (hg.node? hm) ?_
    simp only [look?, FlowGraph.editFacts, GraphTables.editFacts, GraphTables.record?_editRecord, hsize]
    split
    · cases hr : g.record? m <;> cases hr' : h.record? m <;> simp [hr, hr', NodeRecord.look] at hlook ⊢
      · exact (he _ _ rfl).symm
      · exact ⟨(he _ _ hlook.1.symm).symm, hlook.2⟩
    · exact hlook

theorem editFacts_of_not_mem (g : FlowGraph) (edit : Facts → Facts) (hn : n ∉ A) :
    AgreeOn A g (g.editFacts n edit) where
  size := rfl
  constraints := rfl
  chains := rfl
  nodes m hm := by
    have hne : n ≠ m := fun he => hn (he ▸ hm)
    refine Prod.ext rfl ?_
    simp [look?, FlowGraph.editFacts, GraphTables.editFacts, GraphTables.record?_editRecord, hne]

end AgreeOn

end FlowGraph

namespace Propagation

open FlowGraph

variable {A : Set NodeId} [DecidablePred (· ∈ A)] {s s' t t' u : Propagation} {n m : NodeId}
  {facts facts' joined joined' : Facts} {turn : Propagation → NodeId → Propagation} {c : Constraint}

/-- Two propagations whose graphs look the same on a part, and in which the same nodes of the part wait, in the same
order. -/
structure Alike (A : Set NodeId) [DecidablePred (· ∈ A)] (s t : Propagation) : Prop where
  graph : s.graph.AgreeOn A t.graph
  pending : t.worklist.pending.filter (· ∈ A) = s.worklist.pending.filter (· ∈ A)

namespace Alike

theorem refl (A : Set NodeId) [DecidablePred (· ∈ A)] (s : Propagation) : Alike A s s := ⟨.refl A s.graph, rfl⟩

theorem symm (h : Alike A s t) : Alike A t s := ⟨h.graph.symm, h.pending.symm⟩

theorem trans (h : Alike A s t) (h' : Alike A t u) : Alike A s u :=
  ⟨h.graph.trans h'.graph, h'.pending.trans h.pending⟩

theorem foldl {α : Type} {f f' : Propagation → α → Propagation} {as : List α}
    (step : ∀ a ∈ as, ∀ s t, Alike A s t → Alike A (f s a) (f' t a)) (h : Alike A s t) :
    Alike A (as.foldl f s) (as.foldl f' t) := by
  induction as generalizing s t with
  | nil => exact h
  | cons a as ih => exact ih (fun b hb => step b (List.mem_cons_of_mem a hb)) (step a List.mem_cons_self s t h)

theorem pending_push (h : Alike A s t) (n : NodeId) :
    (t.worklist.push n).pending.filter (· ∈ A) = (s.worklist.push n).pending.filter (· ∈ A) := by
  rw [Worklist.pending_push, Worklist.pending_push]
  exact filter_addOnce_congr h.pending n

/-! ## Turns inside of the part -/

theorem absorb (h : Alike A s t) (hm : m ∈ A) (hf : facts.trace? = facts'.trace?) (step : Path) :
    Alike A (s.absorb m facts step) (t.absorb m facts' step) := by
  have hopen : t.graph.isOpen m = s.graph.isOpen m := h.graph.isOpen hm
  have hgains : (t.graph.factsAt m).gains facts' = (s.graph.factsAt m).gains facts :=
    Facts.gains_congr (h.graph.trace? hm) hf.symm
  have hedit := h.graph.editFacts m fun f f' hff => Facts.merge_congr hff hf step
  simp only [Propagation.absorb, Facts.learn_fst, hopen, hgains]
  split
  · split
    · exact ⟨hedit, h.pending_push m⟩
    · exact ⟨hedit, h.pending⟩
  · exact h

theorem handBack (h : Alike A s t) (hm : m ∈ A) (hf : facts.trace? = facts'.trace?) (step : Path) :
    Alike A (s.handBack m facts step) (t.handBack m facts' step) := by
  unfold Propagation.handBack
  rw [Facts.isEmpty_congr hf]
  split
  · exact h
  · exact h.absorb hm hf step

theorem backwardOver (h : Alike A s t) (hc : c.source ∈ A) (hj : joined.trace? = joined'.trace?) :
    Alike A (backwardOver joined s c) (backwardOver joined' t c) := by
  have hlacks : (t.graph.factsAt c.source).lacks .texts = (s.graph.factsAt c.source).lacks .texts :=
    Facts.lacks_congr (h.graph.trace? hc) .texts
  unfold Propagation.backwardOver
  split
  · exact h.handBack hc hj c.path
  · exact h.handBack hc hj c.path
  · rw [hlacks]
    split
    · exact h.handBack hc hj c.path
    · exact h
  all_goals exact h

theorem backwardAssign {cs : List Constraint} (h : Alike A s t) (hcs : ∀ c ∈ cs, c.source ∈ A)
    (hj : joined.trace? = joined'.trace?) : Alike A (backwardAssign joined s cs) (backwardAssign joined' t cs) := by
  unfold Propagation.backwardAssign
  split
  · exact h
  · exact h.handBack (hcs _ (by simp)) hj _
  · rename_i l r
    have hl : l.source ∈ A := hcs l (by simp)
    have hr : r.source ∈ A := hcs r (by simp)
    have hleft := (h.graph.trace? hl).symm
    have hright := (h.graph.trace? hr).symm
    have hshares := Facts.assignJoin_congr hj hleft hright
    exact (h.handBack hl hshares.1 l.path).handBack hr hshares.2 r.path
  · exact ⟨h.graph, h.pending⟩

theorem backwardPhi {cs : List Constraint} (h : Alike A s t) (hcs : ∀ c ∈ cs, c.source ∈ A)
    (hj : joined.trace? = joined'.trace?) : Alike A (backwardPhi joined s cs) (backwardPhi joined' t cs) := by
  have hfacts : ∀ c ∈ cs, (s.graph.factsAt c.source).trace? = (t.graph.factsAt c.source).trace? :=
    fun c hc => (h.graph.trace? (hcs c hc)).symm
  simp only [Propagation.backwardPhi]
  split
  · exact h
  · exact h.foldl fun c hc s t h => h.handBack (hcs c hc) (Facts.phiDelta_congr hj hfacts) c.path

theorem forwardStep (h : Alike A s t) (hs : s.graph.Separated A) (hn : n ∈ A) :
    Alike A (s.forwardStep n) (t.forwardStep n) := by
  simp only [Propagation.forwardStep, h.graph.constraintsFrom]
  refine h.foldl fun c hc s' t' h' => ?_
  obtain ⟨hmem, rfl⟩ := mem_constraintsFrom.mp hc
  exact h'.absorb ((hs c hmem).mp hn) (h.graph.trace? hn).symm c.path

theorem backwardStep (h : Alike A s t) (hs : s.graph.Separated A) (hn : n ∈ A) :
    Alike A (s.backwardStep n) (t.backwardStep n) := by
  have hj := (h.graph.trace? hn).symm
  have hsource : ∀ c ∈ s.graph.constraintsInto n, c.source ∈ A := by
    intro c hc
    obtain ⟨hmem, rfl, _⟩ := mem_constraintsInto.mp hc
    exact (hs c hmem).mpr hn
  have hsome : ∀ p : Constraint → Bool, ∀ c ∈ (s.graph.constraintsInto n).filter p, c.source ∈ A :=
    fun p c hc => hsource c (List.mem_filter.mp hc).1
  simp only [Propagation.backwardStep, h.graph.constraintsInto]
  refine ((h.foldl fun c hc s t h => ?_).backwardAssign (hsome _) hj).backwardPhi (hsome _) hj
  exact h.backwardOver (hsource c hc) hj

theorem settle (h : Alike A s t) (hn : n ∈ A) : Alike A (s.settle n) (t.settle n) := by
  unfold Propagation.settle
  rw [h.graph.node? hn]
  split
  · exact ⟨h.graph.editFacts n fun _ _ hf => Facts.dropTraces_congr hf, h.pending⟩
  · exact h

end Alike

/-! ## Turns outside of the part -/

theorem alike_absorb (s : Propagation) (hm : m ∉ A) (facts : Facts) (step : Path) :
    Alike A s (s.absorb m facts step) := by
  have hedit := AgreeOn.editFacts_of_not_mem s.graph (·.merge facts step) hm
  simp only [absorb]
  split
  · split
    · exact ⟨hedit, by simp [filter_addOnce, hm]⟩
    · exact ⟨hedit, rfl⟩
  · exact .refl A s

theorem Handout.alike (h : Handout s n s') (hs : s.graph.Separated A) (hn : n ∉ A) : Alike A s s' := by
  induction h with
  | start => exact .refl A s
  | @hand s' c m facts _ hc hl _ ih =>
      -- A constraint leads from `n` to `m`, so both are outside.
      have hm : m ∉ A := by
        cases hl with
        | forth => exact fun hm => hn ((hs c hc).mpr hm)
        | back _ => exact fun hm => hn ((hs c hc).mp hm)
      exact ih.trans (alike_absorb s' hm facts c.path)
  | skip _ ih => exact ⟨ih.graph, ih.pending⟩

theorem alike_settle (s : Propagation) (hn : n ∉ A) : Alike A s (s.settle n) := by
  unfold settle
  split
  · exact ⟨AgreeOn.editFacts_of_not_mem s.graph _ hn, rfl⟩
  · exact .refl A s

/-! ## Passes -/

/-- Turns that respect parts: inside of a part they depend on nothing else, and outside they leave it alone. -/
structure Confined (A : Set NodeId) [DecidablePred (· ∈ A)] (turn : Propagation → NodeId → Propagation) : Prop where
  constraints : ∀ s n, (turn s n).graph.constraints = s.graph.constraints
  inside : ∀ s t n, s.graph.Separated A → n ∈ A → Alike A s t → Alike A (turn s n) (turn t n)
  outside : ∀ s n, s.graph.Separated A → n ∉ A → Alike A s (turn s n)

theorem forwardTurn_confined (A : Set NodeId) [DecidablePred (· ∈ A)] : Confined A forwardTurn where
  constraints s n := (forwardTurn_turned s n).grows.shape.constraints
  inside s t n hs hn h := by
    refine Alike.forwardStep ?_ hs hn
    exact ⟨h.graph, h.pending⟩
  outside s n hs hn := by
    have h := (forwardTurn_handout s n).alike (A := A) hs hn
    exact ⟨h.graph, h.pending⟩

theorem combinedTurn_confined (A : Set NodeId) [DecidablePred (· ∈ A)] : Confined A combinedTurn where
  constraints s n := (combinedTurn_turned s n).grows.shape.constraints
  inside s t n hs hn h := by
    let start (s : Propagation) : Propagation := { s with stats := { s.stats with pass2Pops := s.stats.pass2Pops + 1 } }
    have hstart : Alike A (start s) (start t) := ⟨h.graph, h.pending⟩
    have hback : ((start s).backwardStep n).graph.Separated A :=
      hs.of_constraints (grows_backwardStep (start s) n).shape.constraints
    exact ((hstart.backwardStep hs hn).forwardStep hback hn).settle hn
  outside s n hs hn := by
    have h := ((exchange_handout s n).alike (A := A) hs hn).trans (alike_settle (s.exchange n) hn)
    rw [combinedTurn_eq]
    exact ⟨h.graph, h.pending⟩

section Passes

variable (hturn : Confined A turn)

include hturn

theorem Confined.separated (hs : s.graph.Separated A) (rest : Worklist) (n : NodeId) :
    (turn { s with worklist := rest } n).graph.Separated A :=
  hs.of_constraints (hturn.constraints { s with worklist := rest } n)

/-- The turn of a node outside of the part cannot be seen there. -/
theorem Confined.skip {rest : Worklist} (hs : s.graph.Separated A) (hp : s.worklist.pop = some (n, rest))
    (hn : n ∉ A) : Alike A s (turn { s with worklist := rest } n) := by
  have hrest : Alike A s { s with worklist := rest } :=
    ⟨.refl A s.graph, by simp [Worklist.pending_of_pop hp, hn]⟩
  exact hrest.trans (hturn.outside { s with worklist := rest } n hs hn)

theorem Drains.idle (hs : s.graph.Separated A) (hd : Drains turn s s')
    (hnone : s.worklist.pending.filter (· ∈ A) = []) : Alike A s s' := by
  induction hd with
  | @done s _ => exact .refl A s
  | @turn s s' n rest hp _ ih =>
      have hn : n ∉ A := by
        intro hn
        simp [Worklist.pending_of_pop hp, hn] at hnone
      have hskip := hturn.skip hs hp hn
      exact hskip.trans (ih (hturn.separated hs rest n) (hskip.pending.trans hnone))

/-- The first node of the part that waits is the first one to take a turn, and until then nothing happens in the
part. -/
theorem Drains.first {ns : List NodeId} (hs : s.graph.Separated A) (hd : Drains turn s s')
    (hfirst : s.worklist.pending.filter (· ∈ A) = n :: ns) :
    ∃ t rest, Alike A s t ∧ t.worklist.pop = some (n, rest) ∧ Drains turn (turn { t with worklist := rest } n) s' := by
  induction hd with
  | @done s hp => simp [Worklist.pop_eq_none_iff.mp hp] at hfirst
  | @turn s s' m rest hp hd ih =>
      by_cases hm : m ∈ A
      · have hmn : m = n := by
          simp only [Worklist.pending_of_pop hp, List.filter_cons, hm, decide_true, if_true] at hfirst
          exact (List.cons.inj hfirst).1
        subst hmn
        exact ⟨s, rest, .refl A s, hp, hd⟩
      · have hskip := hturn.skip hs hp hm
        obtain ⟨t, rest', ht, hpop, hdrain⟩ := ih (hturn.separated hs rest m) (hskip.pending.trans hfirst)
        exact ⟨t, rest', hskip.trans ht, hpop, hdrain⟩

/-- Two passes that start alike end alike: seen from the part they take the same turns in the same order. -/
theorem Drains.alike (hs : s.graph.Separated A) (h : Alike A s t) (hd : Drains turn s s') (hd' : Drains turn t t') :
    Alike A s' t' := by
  -- By induction on the first pass. The second one catches up whenever a node of the part takes its turn in the first.
  induction hd generalizing t with
  | @done s hp =>
      have hnone : t.worklist.pending.filter (· ∈ A) = [] := by
        rw [h.pending, Worklist.pop_eq_none_iff.mp hp, List.filter_nil]
      exact h.trans (Drains.idle hturn (h.graph.separated hs) hd' hnone)
  | @turn s s' n rest hp _ ih =>
      by_cases hn : n ∈ A
      · have hfirst : t.worklist.pending.filter (· ∈ A) = n :: rest.pending.filter (· ∈ A) := by
          rw [h.pending, Worklist.pending_of_pop hp, List.filter_cons_of_pos (by simpa using hn)]
        obtain ⟨t₁, rest', ht, hp', hd₁⟩ := Drains.first hturn (h.graph.separated hs) hd' hfirst
        have hrest : rest'.pending.filter (· ∈ A) = rest.pending.filter (· ∈ A) := by
          have hpending := ht.pending.trans hfirst
          rw [Worklist.pending_of_pop hp', List.filter_cons_of_pos (by simpa using hn)] at hpending
          exact (List.cons.inj hpending).2
        have hboth : Alike A { s with worklist := rest } { t₁ with worklist := rest' } :=
          ⟨(h.trans ht).graph, hrest⟩
        exact ih (hturn.separated hs rest n) (hturn.inside _ _ n hs hn hboth) hd₁
      · exact ih (hturn.separated hs rest n) ((hturn.skip hs hp hn).symm.trans h) hd'

end Passes

/-! ## Starting a pass -/

theorem Alike.seedNode (h : Alike A s t) (n : NodeId) : Alike A (s.seedNode n) (t.seedNode n) :=
  ⟨h.graph, h.pending_push n⟩

theorem alike_seedNode (s : Propagation) (hn : n ∉ A) : Alike A s (s.seedNode n) :=
  ⟨.refl A s.graph, by simp [Propagation.seedNode, filter_addOnce, hn]⟩

theorem alike_seedConstant (s : Propagation) (hn : n ∉ A) : Alike A s (s.seedConstant n) := by
  rcases seedConstant_cases s n with ⟨_, he⟩ | ⟨l, _, he⟩
  · rw [he]
    exact .refl A s
  · rw [he]
    have hedit : Alike A s { s with graph := s.graph.editFacts n (·.addLiteral l) } :=
      ⟨AgreeOn.editFacts_of_not_mem s.graph (·.addLiteral l) hn, rfl⟩
    exact hedit.trans (alike_seedNode _ hn)

theorem Alike.seedConstant (h : Alike A s t) (n : NodeId) : Alike A (s.seedConstant n) (t.seedConstant n) := by
  by_cases hn : n ∈ A
  · unfold Propagation.seedConstant
    rw [h.graph.node? hn]
    split
    · rename_i l _
      refine Alike.seedNode ?_ n
      exact ⟨h.graph.editFacts n fun _ _ hf => Facts.add_congr hf l.item l.trace, h.pending⟩
    · exact h
  · exact ((alike_seedConstant s hn).symm.trans h).trans (alike_seedConstant t hn)

theorem alike_seedName (s : Propagation) {name : AppendName} (hn : name.node ∉ A) : Alike A s (s.seedName name) := by
  have hedit := AgreeOn.editFacts_of_not_mem s.graph (·.add (.text name.name) (some [name.statement])) hn
  simp only [seedName]
  split
  · split
    · exact ⟨hedit, by simp [filter_addOnce, hn]⟩
    · exact ⟨hedit, rfl⟩
  · exact .refl A s

theorem Alike.seedName (h : Alike A s t) (name : AppendName) : Alike A (s.seedName name) (t.seedName name) := by
  by_cases hn : name.node ∈ A
  · have hedit := h.graph.editFacts name.node fun _ _ hf => Facts.add_congr hf (.text name.name) (some [name.statement])
    have hhas : (t.graph.factsAt name.node).has (.text name.name) = (s.graph.factsAt name.node).has (.text name.name) :=
      Facts.has_congr (h.graph.trace? hn) _
    simp only [Propagation.seedName, h.graph.node? hn, hhas]
    split
    · split
      · exact ⟨hedit, h.pending_push _⟩
      · exact ⟨hedit, h.pending⟩
    · exact h
  · exact ((alike_seedName s hn).symm.trans h).trans (alike_seedName t hn)

theorem filter_recorded {p : NodeRecord → Bool} {g h : FlowGraph} (hg : g.AgreeOn A h)
    (hp : ∀ r r' : NodeRecord, r.look = r'.look → p r = p r') :
    ((h.recorded.filter p).map NodeRecord.node).filter (· ∈ A) =
      ((g.recorded.filter p).map NodeRecord.node).filter (· ∈ A) := by
  rw [map_node_recorded, map_node_recorded, hg.size, List.filter_filter, List.filter_filter]
  refine List.filter_congr fun n _ => ?_
  by_cases hn : n ∈ A
  · rw [hg.record_any_eq hn hp]
  · simp [hn]

theorem pending_foldl_seedNode (ns : List NodeId) (s : Propagation) :
    (ns.foldl seedNode s).worklist.pending = ns.foldl addOnce s.worklist.pending := by
  induction ns generalizing s with
  | nil => rfl
  | cons n ns ih => rw [List.foldl_cons, ih, seedNode, Worklist.pending_push, List.foldl_cons]

theorem pending_foldl_push (ns : List NodeId) (w : Worklist) :
    (ns.foldl Worklist.push w).pending = ns.foldl addOnce w.pending := by
  induction ns generalizing w with
  | nil => rfl
  | cons n ns ih => rw [List.foldl_cons, ih, Worklist.pending_push, List.foldl_cons]

theorem alike_withFields {g h : FlowGraph} (hg : g.AgreeOn A h) : Alike A (withFields g) (withFields h) := by
  have hconstants : Alike A (withConstants g) (withConstants h) := by
    have hstart : Alike A { graph := g } { graph := h } := ⟨hg, rfl⟩
    rw [withConstants, withConstants, hg.size]
    exact hstart.foldl fun n _ s t h => h.seedConstant n
  refine ⟨?_, ?_⟩
  · rw [graph_withFields, graph_withFields]
    exact hconstants.graph
  · rw [withFields, withFields, pending_foldl_seedNode, pending_foldl_seedNode, filter_foldl_addOnce,
      filter_foldl_addOnce, hconstants.pending]
    refine congrArg (List.foldl addOnce _) (filter_recorded hconstants.graph fun _ _ hr => ?_)
    exact Facts.hasFields_congr (congrArg Prod.fst hr)

theorem alike_seed {g h : FlowGraph} (hg : g.AgreeOn A h) : Alike A (seed { graph := g }) (seed { graph := h }) := by
  have hfields := alike_withFields hg
  rw [seed_eq, seed_eq, hfields.graph.chains]
  exact hfields.foldl fun name _ s t h => h.seedName name

theorem Alike.reseed (h : Alike A s t) : Alike A s.reseed t.reseed := by
  refine ⟨h.graph, ?_⟩
  simp only [Propagation.reseed, pending_foldl_push, filter_foldl_addOnce]
  refine congrArg (List.foldl addOnce _) (filter_recorded h.graph fun r r' hr => ?_)
  simp only [NodeRecord.look, Prod.mk.injEq] at hr
  rw [Facts.isEmpty_congr hr.1, hr.2.2.1]

theorem alike_complete {g h : FlowGraph} (hs : g.Separated A) (hg : g.AgreeOn A h) :
    Alike A (complete 0 g) (complete 0 h) := by
  obtain ⟨hfirst, hsecond⟩ := complete_drains g
  obtain ⟨hfirst', hsecond'⟩ := complete_drains h
  have hseeded : (seed { graph := g }).graph.Separated A := hs.of_constraints (grows_seed g).shape.constraints
  have hforward : Alike A (afterForward 0 g) (afterForward 0 h) :=
    Drains.alike (forwardTurn_confined A) hseeded (alike_seed hg) hfirst hfirst'
  have hreseeded : (afterForward 0 g).reseed.graph.Separated A := by
    rw [graph_reseed]
    exact hseeded.of_constraints (hfirst.spent forwardTurn_timed).grows.shape.constraints
  exact Drains.alike (combinedTurn_confined A) hreseeded hforward.reseed hsecond hsecond'

end Propagation

namespace FlowGraph

theorem look?_propagate {g g' : FlowGraph} {cap : Nat} {stats : PropagationStats}
    (h : g.propagate cap = .ok (stats, g')) (n : NodeId) :
    g'.look? n = (Propagation.complete cap g).graph.look? n := by
  obtain ⟨_, _, rfl⟩ := propagate_eq_ok_iff.mp h
  rfl

/-- Propagation in a part of a graph that no constraint connects to the rest does not depend on the rest: if two graphs
agree on the part, then afterwards its nodes have the same records in both, with the same traces. -/
theorem propagate_confined {A : Set NodeId} {g h : FlowGraph} (hg : g.phase = .fieldsCollected)
    (hh : h.phase = .fieldsCollected) (hs : g.Separated A) (hagree : g.AgreeOn A h) :
    ∃ stats g' stats' h', g.propagate 0 = .ok (stats, g') ∧ h.propagate 0 = .ok (stats', h') ∧
      ∀ n ∈ A, h'.look? n = g'.look? n := by
  classical
  obtain ⟨stats, g', hok⟩ : ∃ stats g', g.propagate 0 = .ok (stats, g') :=
    ⟨_, _, propagate_eq_ok_iff.mpr ⟨hg, rfl, rfl⟩⟩
  obtain ⟨stats', h', hok'⟩ : ∃ stats h', h.propagate 0 = .ok (stats, h') :=
    ⟨_, _, propagate_eq_ok_iff.mpr ⟨hh, rfl, rfl⟩⟩
  refine ⟨stats, g', stats', h', hok, hok', fun n hn => ?_⟩
  rw [look?_propagate hok, look?_propagate hok']
  exact (Propagation.alike_complete hs hagree).graph.nodes n hn

/-- A text that flows into a value, between two nodes that have nothing to do with it. -/
def partedGraph (source target : GraphTables.Operation) : FlowGraph :=
  .after 0
    [.beginBuilding, source, .valueNode 0 1 (some (.text "secret")), .valueNode 0 2 none, .markSpecial 2, target,
      .addConstraint 3 .eq 0 [⟨0, 1⟩], .addConstraint 2 .geAssign 1 [⟨0, 2⟩], .finishFields]

theorem partedGraph_confined :
    let part : Set NodeId := {n | n = 1 ∨ n = 2}
    let busy := partedGraph (.valueNode 0 0 (some (.text "other"))) (.standIn 0 "DEVICE_ID")
    let calm := partedGraph (.valueNode 0 0 none) (.valueNode 0 3 none)
    ∃ stats g' stats' h', busy.propagate 0 = .ok (stats, g') ∧ calm.propagate 0 = .ok (stats', h') ∧
      stats ≠ stats' ∧ ∀ n ∈ part, h'.look? n = g'.look? n := by
  intro part busy calm
  have hconstraints : busy.constraints = #[⟨3, .eq, 0, [⟨0, 1⟩]⟩, ⟨2, .geAssign, 1, [⟨0, 2⟩]⟩] := by decide +kernel
  have hs : busy.Separated part := by
    intro c hc
    have hc : c = ⟨3, .eq, 0, [⟨0, 1⟩]⟩ ∨ c = ⟨2, .geAssign, 1, [⟨0, 2⟩]⟩ := by simpa [hconstraints] using hc
    rcases hc with rfl | rfl <;> simp [part]
  have hrecords : busy.record? 1 = calm.record? 1 ∧ busy.record? 2 = calm.record? 2 ∧ busy.node? 1 = calm.node? 1 ∧
      busy.node? 2 = calm.node? 2 := by decide +kernel
  have hagree : busy.AgreeOn part calm := by
    refine ⟨by decide +kernel, by decide +kernel, by decide +kernel, ?_⟩
    rintro n (rfl | rfl) <;> simp [look?, hrecords]
  obtain ⟨stats, g', stats', h', hok, hok', hlook⟩ := propagate_confined rfl rfl hs hagree
  refine ⟨stats, g', stats', h', hok, hok', ?_, hlook⟩
  have hstats : (Propagation.complete 0 busy).stats ≠ (Propagation.complete 0 calm).stats := by decide +kernel
  rwa [(propagate_eq_ok_iff.mp hok).2.1, (propagate_eq_ok_iff.mp hok').2.1]

end FlowGraph

end SinkFlow
