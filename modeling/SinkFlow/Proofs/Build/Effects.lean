import SinkFlow.Proofs.Build.Operations
import SinkFlow.Proofs.Build.Visit

/-!
What the operations of a build leave alone. None takes anything back. A node is changed by no operation but those on
chains and on sinks, and these leave its kind as it is; a node of a kind is made only by operations for that kind.
-/

namespace SinkFlow

namespace GraphTables

variable {g g' : GraphTables} {n : NodeId} {op : Operation} {p : Program} {t : Setting}

/-- Whether a sink leaks a node. -/
def isSpecial (g : GraphTables) (n : NodeId) : Bool := (g.node? n).any Node.special

/-! ## What is there stays there -/

/-- The operations of a build. -/
def Operation.Builds (p : Program) (op : Operation) : Prop := op.Draws p ∨ op.Views ∨ op.Chains ∨ op.Marks

theorem SameTables.pushChain (g : GraphTables) : SameTables g { g with chains := g.chains.push {} } := .of_eq rfl rfl

theorem extends_chainFor {id : ChainId} (hg : g.chainFor n = .ok (id, g')) : Extends g g' := by
  rcases chainFor_cases hg with ⟨_, rfl⟩ | ⟨_, hattach⟩
  · exact .refl g'
  · rw [(attachChain_eq_ok_iff.mp hattach).2]
    exact ((SameTables.pushChain g).trans (.editRecord _ n _)).extended

theorem extends_markSpecial (hg : g.markSpecial n = .ok g') : Extends g g' := by
  have hmark : SameTables g { g with nodes := g.nodes.modify n fun v => { v with special := true } } :=
    .modify g n (fun _ => rfl) fun _ _ => rfl
  rw [(markSpecial_eq_ok_iff.mp hg).2]
  exact hmark.extended

theorem extends_addConstraint {target source : NodeId} {kind : ConstraintKind} {path : Path} {r : Option ConstraintId}
    (hg : g.addConstraint target kind source path = .ok (r, g')) : Extends g g' := by
  obtain ⟨_, _, _, ⟨_, _, rfl⟩ | ⟨_, _, rfl⟩ | ⟨_, _, _, rfl⟩⟩ := addConstraint_cases hg
  · exact .refl _
  · exact .refl _
  · exact extends_pushConstraint g _

/-- Building takes nothing back. -/
theorem extends_perform (hop : op.Builds t.program) (hg : g.perform op = .ok g') : Extends g g' := by
  rcases hop with hop | hop | hop | hop
  · cases hop with
    | value q slot => cases hg; exact (leads_valueNode (t := t) g q slot).1
    | standIn q tag => cases hg; exact (leads_pushNumbered (t := t) g q _).1
    | relation target kind source path =>
        obtain ⟨⟨r, _⟩, hadd, rfl⟩ := exists_of_map_eq_ok hg
        exact extends_addConstraint hadd
  · cases hop with
    | object q o field => cases hg; exact (leads_pushNumbered (t := t) g q _).1
    | static q field => cases hg; exact (leads_pushNumbered (t := t) g q _).1
    | representative q field => cases hg; exact (leads_representative (t := t) g q field).1
    | incoming field n => cases hg; exact extends_registerIncoming g field n
    | outgoing field n => cases hg; exact extends_registerOutgoing g field n
    | access id a => cases hg; exact extends_recordAccess g id a
  · cases hop with
    | begin n =>
        obtain ⟨⟨id, _⟩, hchain, rfl⟩ := exists_of_map_eq_ok hg
        exact extends_chainFor hchain
    | attach n id =>
        rw [(attachChain_eq_ok_iff.mp hg).2]
        exact (SameTables.editRecord g n _).extended
    | push id e => cases hg; exact (SameTables.pushElement g id e).extended
  · cases hop with
    | special n => exact extends_markSpecial hg
    | site site => cases hg; exact extends_registerSink g site

/-- The course of a build: nothing is taken back, and the graph stays well-formed. -/
def building : Course GraphTables where
  leads g g' := Extends g g' ∧ (g.WellFormed → g'.WellFormed)
  refl g := ⟨.refl g, id⟩
  trans h h' := ⟨h.1.trans h'.1, h'.2 ∘ h.2⟩

theorem building_perform (hop : op.Builds t.program) (hg : g.perform op = .ok g') : building.leads g g' :=
  ⟨extends_perform hop hg, (living_perform hg).2⟩

theorem WellFormed.node?_isSome {q : ProcedureId} {slot : ValueSlot} (h : g.WellFormed)
    (hn : g.valueNode? q slot = some n) : (g.node? n).isSome := by
  obtain ⟨l, hkind⟩ := h.found q slot n hn
  rw [← kind?_isSome, hkind]
  rfl

/-! ## What is left alone -/

/-- An operation makes nodes of a kind. -/
def Operation.Makes : Operation → NodeKind → Prop
  | .valueNode q slot l, kind => kind = .value q slot l
  | .instanceView q o field, kind => ∃ k, kind = .instanceField q k o field
  | .staticView _ field, kind | .representative _ field, kind => ∃ k, kind = .staticField k field
  | .standIn _ tag, kind => ∃ k, kind = .standIn k tag
  | _, _ => False

theorem kind?_addConstraint {target source : NodeId} {kind : ConstraintKind} {path : Path} {r : Option ConstraintId}
    (hg : g.addConstraint target kind source path = .ok (r, g')) (m : NodeId) : g'.kind? m = g.kind? m := by
  obtain ⟨_, _, _, ⟨_, _, rfl⟩ | ⟨_, _, rfl⟩ | ⟨_, _, _, rfl⟩⟩ := addConstraint_cases hg
  · rfl
  · rfl
  · exact kind?_congr (nodes_pushConstraint g _) m

theorem chainsAt_congr (h : ∀ n, g'.record? n = g.record? n) (n : NodeId) : g'.chainsAt n = g.chainsAt n := by
  rw [chainsAt, h, chainsAt]

/-- Adding values, views and constraints leaves chains and sinks alone, and makes one node at most. -/
theorem drawn_perform (hop : op.Draws p ∨ op.Views) (hg : g.perform op = .ok g') :
    g'.chains = g.chains ∧ g'.sinks = g.sinks ∧ (∀ n, g'.chainsAt n = g.chainsAt n) ∧
      (g'.nodes = g.nodes ∨ ∃ kind, op.Makes kind ∧ g'.nodes = g.nodes.push { id := g.nodes.size, kind }) := by
  have hpush : ∀ (kind : NodeKind) (scopes : Table ProcedureId Scope) (n : NodeId),
      ({ (g.pushNode kind).2 with scopes } : GraphTables).chainsAt n = g.chainsAt n :=
    fun kind _ => chainsAt_congr (record?_pushNode g kind)
  rcases hop with hop | hop
  · cases hop with
    | value q slot =>
        cases hg
        unfold valueNode
        split
        · exact ⟨rfl, rfl, fun _ => rfl, .inl rfl⟩
        · exact ⟨rfl, rfl, hpush _ _, .inr ⟨_, rfl, rfl⟩⟩
    | standIn q tag => cases hg; exact ⟨rfl, rfl, hpush _ _, .inr ⟨_, ⟨_, rfl⟩, rfl⟩⟩
    | relation target kind source path =>
        obtain ⟨⟨r, _⟩, hadd, rfl⟩ := exists_of_map_eq_ok hg
        obtain ⟨_, _, _, ⟨_, _, rfl⟩ | ⟨_, _, rfl⟩ | ⟨_, _, _, rfl⟩⟩ := addConstraint_cases hadd
        · exact ⟨rfl, rfl, fun _ => rfl, .inl rfl⟩
        · exact ⟨rfl, rfl, fun _ => rfl, .inl rfl⟩
        · have hchains := chainsAt_pushConstraint g ⟨target, kind, source, path⟩
          rw [pushConstraint_rest] at hchains ⊢
          exact ⟨rfl, rfl, hchains, .inl rfl⟩
  · cases hop with
    | object q o field => cases hg; exact ⟨rfl, rfl, hpush _ _, .inr ⟨_, ⟨_, rfl⟩, rfl⟩⟩
    | static q field => cases hg; exact ⟨rfl, rfl, hpush _ _, .inr ⟨_, ⟨_, rfl⟩, rfl⟩⟩
    | representative q field =>
        cases hg
        unfold representative
        split
        · exact ⟨rfl, rfl, fun _ => rfl, .inl rfl⟩
        · exact ⟨rfl, rfl, hpush _ _, .inr ⟨_, ⟨_, rfl⟩, rfl⟩⟩
    | incoming field n | outgoing field n | access id a => cases hg; exact ⟨rfl, rfl, fun _ => rfl, .inl rfl⟩

/-- The operations on chains leave sinks and nodes alone. -/
theorem chained_perform (hop : op.Chains) (hg : g.perform op = .ok g') : g'.sinks = g.sinks ∧ g'.nodes = g.nodes := by
  cases hop with
  | begin n =>
      obtain ⟨⟨id, g₁⟩, hchain, rfl⟩ := exists_of_map_eq_ok hg
      rcases chainFor_cases hchain with ⟨_, rfl⟩ | ⟨_, hattach⟩
      · exact ⟨rfl, rfl⟩
      · obtain ⟨_, rfl⟩ := attachChain_eq_ok_iff.mp hattach
        exact ⟨rfl, rfl⟩
  | attach n id =>
      obtain ⟨_, rfl⟩ := attachChain_eq_ok_iff.mp hg
      exact ⟨rfl, rfl⟩
  | push id e => cases hg; exact ⟨rfl, rfl⟩

/-- The operations on sinks leave chains and records alone, and what a node stands for. -/
theorem marked_perform (hop : op.Marks) (hg : g.perform op = .ok g') :
    g'.chains = g.chains ∧ g'.records = g.records ∧ ∀ n, g'.kind? n = g.kind? n := by
  cases hop with
  | special n =>
      obtain ⟨_, rfl⟩ := markSpecial_eq_ok_iff.mp hg
      exact ⟨rfl, rfl, kind?_modify g n fun _ => rfl⟩
  | site site =>
      cases hg
      unfold registerSink
      split <;> exact ⟨rfl, rfl, fun _ => rfl⟩

theorem chains_perform (hop : op.Draws p ∨ op.Views ∨ op.Marks) (hg : g.perform op = .ok g') :
    g'.chains = g.chains := by
  rcases or_assoc.mpr hop with hop | hop
  · exact (drawn_perform hop hg).1
  · exact (marked_perform hop hg).1

theorem sinks_perform (hop : op.Draws p ∨ op.Views ∨ op.Chains) (hg : g.perform op = .ok g') : g'.sinks = g.sinks := by
  rcases or_assoc.mpr hop with hop | hop
  · exact (drawn_perform hop hg).2.1
  · exact (chained_perform hop hg).1

/-- Only the operations on chains put a node on one. -/
theorem chainsAt_perform (hop : op.Draws p ∨ op.Views ∨ op.Marks) (hg : g.perform op = .ok g') (n : NodeId) :
    g'.chainsAt n = g.chainsAt n := by
  rcases or_assoc.mpr hop with hop | hop
  · exact (drawn_perform hop hg).2.2.1 n
  · rw [chainsAt, record?, (marked_perform hop hg).2.1]
    rfl

/-- Only the operations on sinks mark a node. -/
theorem isSpecial_perform (hop : op.Draws p ∨ op.Views ∨ op.Chains) (hg : g.perform op = .ok g') (n : NodeId) :
    g'.isSpecial n = g.isSpecial n := by
  have hsame : g'.nodes = g.nodes → g'.isSpecial n = g.isSpecial n := fun h => by simp only [isSpecial, node?, h]
  rcases or_assoc.mpr hop with hop | hop
  · rcases (drawn_perform hop hg).2.2.2 with hnodes | ⟨kind, _, hpush⟩
    · exact hsame hnodes
    · simp only [isSpecial, node?, hpush, Array.getElem?_push]
      split
      · simp [*]
      · rfl
  · exact hsame (chained_perform hop hg).2

/-- A node is of the kind that the operation is for that made it. -/
theorem kind?_perform (hop : op.Builds p) (hg : g.perform op = .ok g') {kind : NodeKind}
    (hn : g'.kind? n = some kind) : g.kind? n = some kind ∨ op.Makes kind := by
  rcases or_assoc.mpr hop with hop | hop | hop
  · rcases (drawn_perform hop hg).2.2.2 with hnodes | ⟨kind', hmakes, hpush⟩
    · exact .inl (kind?_congr hnodes n ▸ hn)
    · rw [kind?_push hpush] at hn
      split at hn
      · cases hn
        exact .inr hmakes
      · exact .inl hn
  · exact .inl (kind?_congr (chained_perform hop hg).2 n ▸ hn)
  · exact .inl ((marked_perform hop hg).2.2 n ▸ hn)

/-- A value is made with the literal that the program gives it. -/
theorem literal_of_makes {q : ProcedureId} {slot : ValueSlot} {l : Option Literal} (hop : op.Builds p)
    (h : op.Makes (.value q slot l)) : l = p.literal? q slot := by
  rcases hop with hop | hop | hop | hop
  · cases hop with
    | value => cases h; rfl
    | standIn => obtain ⟨_, h⟩ := h; cases h
    | relation => cases h
  · cases hop with
    | object | static | representative => obtain ⟨_, h⟩ := h; cases h
    | incoming | outgoing | access => cases h
  · cases hop <;> cases h
  · cases hop <;> cases h

end GraphTables

/-- The course of a build of a flow graph. -/
def FlowGraph.building : Course FlowGraph := GraphTables.building.along FlowGraph.toGraphTables

/-- What is kept by the operations that an edit performs is kept by the edit, whether it succeeds or fails. -/
theorem Edit.Performs.ends {α : Type} {A : GraphTables.Operation → Prop} {C : Course GraphTables} {x : Edit α}
    (h : Edit.Performs A x) (hC : ∀ op, A op → ∀ g g', g.perform op = .ok g' → C.leads g g') (g : FlowGraph) :
    (C.along FlowGraph.toGraphTables).Ends g x (fun _ _ => True) fun _ => True := by
  refine .intro (fun a g' hrun => ⟨?_, trivial⟩) fun _ _ _ => trivial
  have hleads := h.leads hC g
  rwa [hrun] at hleads

/-- What holds after an attempt if it succeeds. -/
theorem Edit.ends_of_attempt {α : Type} {C : Course FlowGraph} {g : FlowGraph} {Q : α → FlowGraph → Prop}
    {f : FlowGraph → Except AnalysisError (α × FlowGraph)}
    (hok : ∀ a g', f g = .ok (a, g') → C.leads g g' ∧ Q a g') : C.Ends g (Edit.attempt f) Q fun _ => True := by
  cases hf : f g with
  | ok r => exact Edit.ends_attempt hf (hok r.1 r.2 hf).1 (hok r.1 r.2 hf).2
  | error e =>
      have hrun : (Edit.attempt f).run g = (.error e, g) := by
        simp only [Edit.attempt, ExceptT.run, ExceptT.mk, hf]
      simp only [Course.Ends, hrun]

/-! ## Steps of a build -/

theorem Build.ends_edit_along {α : Type} {C : Course FlowGraph} {s : BuildState} {x : Edit α} {Q : α → FlowGraph → Prop}
    {E : AnalysisError → Prop} (h : C.Ends s.graph x Q E) :
    (C.along BuildState.graph).Ends s (edit x) (fun a s' => Q a s'.graph) E := by
  refine .intro (fun a s' hrun => ?_) fun e s' hrun => ?_
  · rcases hx : x.run s.graph with ⟨r, g⟩
    rw [run_edit hx] at hrun
    cases hrun
    exact h.of_ok hx
  · rcases hx : x.run s.graph with ⟨r, g⟩
    rw [run_edit hx] at hrun
    cases hrun
    exact h.of_error hx

end SinkFlow
