import SinkFlow.Proofs.Flow.Edit
import SinkFlow.Proofs.Flow.Lookup
import SinkFlow.Program

/-!
Graphs that are being built. Whatever a build does to its graph, every step of a path is a statement of the
program, and nothing is known at any node.
-/

namespace SinkFlow

/-- A reference names a statement of the program that is analysed as an entrypoint. -/
def StatementRef.IsOf (r : StatementRef) (e : EntrypointId) (p : Program) : Prop :=
  r.entrypoint = e ∧ r.statement ∈ p.statementIds

/-- A graph whose paths lead over statements of the program that is analysed as an entrypoint. -/
structure GraphTables.Charted (e : EntrypointId) (p : Program) (g : GraphTables) : Prop where
  entrypoint : g.entrypoint = e
  paths : ∀ c ∈ g.constraints, ∀ r ∈ c.path, r.IsOf e p
  operands : ∀ chain ∈ g.chains, ∀ n r, .operand n r ∈ chain.elements → r.IsOf e p

/-- A graph that is being built from a program: nothing is known in it yet. -/
structure GraphTables.Drawn (e : EntrypointId) (p : Program) (g : GraphTables) : Prop extends Charted e p g where
  blank : ∀ n i, (g.factsAt n).has i = false

namespace GraphTables

variable {e : EntrypointId} {p : Program} {g g' : GraphTables} {n m : NodeId}

/-! ## Facts -/

theorem factsAt_push (g : GraphTables) (kind : NodeKind) (n : NodeId) :
    (g.pushNode kind).2.factsAt n = g.factsAt n := by
  rw [factsAt, record?_pushNode, factsAt]

theorem factsAt_editRecord (g : GraphTables) (n : NodeId) {edit : NodeRecord → NodeRecord}
    (h : ∀ r, (edit r).facts = r.facts) (m : NodeId) : (g.editRecord n edit).factsAt m = g.factsAt m := by
  rw [factsAt, record?_editRecord]
  split
  · cases hr : g.record? m <;> simp [factsAt, hr, h]
  · rfl

theorem factsAt_pushConstraint (g : GraphTables) (c : Constraint) (n : NodeId) :
    (g.pushConstraint c).factsAt n = g.factsAt n := by
  have hforward : (g.withForward c).factsAt n = g.factsAt n := by
    rw [withForward, factsAt_editRecord]
    · exact factsAt_congr rfl n
    · exact fun _ => rfl
  rw [pushConstraint_eq]
  split
  · rw [factsAt_editRecord, hforward]
    exact fun _ => rfl
  · exact hforward

/-! ## Operations that only add nodes and entries -/

theorem Drawn.of_same (h : Drawn e p g) (he : g'.entrypoint = g.entrypoint) (hc : g'.constraints = g.constraints)
    (hch : g'.chains = g.chains) (hf : ∀ n, g'.factsAt n = g.factsAt n) : Drawn e p g' where
  entrypoint := he.trans h.entrypoint
  paths := hc ▸ h.paths
  operands := hch ▸ h.operands
  blank n := (hf n).symm ▸ h.blank n

theorem Drawn.pushNode (h : Drawn e p g) (kind : NodeKind) : Drawn e p (g.pushNode kind).2 :=
  h.of_same rfl rfl rfl (factsAt_push g kind)

theorem Drawn.withScopes (h : Drawn e p g) (scopes : Table ProcedureId Scope) : Drawn e p { g with scopes } :=
  h.of_same rfl rfl rfl (factsAt_congr rfl)

theorem Drawn.valueNode (h : Drawn e p g) (procedure : ProcedureId) (slot : ValueSlot) (literal : Option Literal) :
    Drawn e p (g.valueNode procedure slot literal).2 := by
  unfold GraphTables.valueNode
  split
  · exact h
  · exact (h.pushNode _).withScopes _

theorem Drawn.pushNumbered (h : Drawn e p g) (procedure : ProcedureId) (kind : Nat → NodeKind) :
    Drawn e p (g.pushNumbered procedure kind).2 := (h.pushNode _).withScopes _

theorem Drawn.instanceView (h : Drawn e p g) (procedure : ProcedureId) (object : ValueSlot) (field : FieldSignature) :
    Drawn e p (g.instanceView procedure object field).2 := h.pushNumbered procedure _

theorem Drawn.staticView (h : Drawn e p g) (procedure : ProcedureId) (field : FieldSignature) :
    Drawn e p (g.staticView procedure field).2 := h.pushNumbered procedure _

theorem Drawn.standIn (h : Drawn e p g) (procedure : ProcedureId) (tag : String) :
    Drawn e p (g.standIn procedure tag).2 := h.pushNumbered procedure _

theorem Drawn.representative (h : Drawn e p g) (procedure : ProcedureId) (field : FieldSignature) :
    Drawn e p (g.representative procedure field).2 := by
  unfold GraphTables.representative
  split
  · exact h
  · exact (h.pushNumbered procedure _).withScopes _

theorem Drawn.markSpecial (h : Drawn e p g) (hg : g.markSpecial n = .ok g') : Drawn e p g' := by
  obtain ⟨_, rfl⟩ := markSpecial_eq_ok_iff.mp hg
  exact h.of_same rfl rfl rfl (factsAt_congr rfl)

theorem Drawn.registerSink (h : Drawn e p g) (site : SinkSite) : Drawn e p (g.registerSink site).2 := by
  unfold GraphTables.registerSink
  split
  · exact h
  · exact h.of_same rfl rfl rfl (factsAt_congr rfl)

theorem Drawn.registerIncoming (h : Drawn e p g) (field : FieldSignature) (n : NodeId) :
    Drawn e p (g.registerIncoming field n) := h.of_same rfl rfl rfl (factsAt_congr rfl)

theorem Drawn.registerOutgoing (h : Drawn e p g) (field : FieldSignature) (n : NodeId) :
    Drawn e p (g.registerOutgoing field n) := h.of_same rfl rfl rfl (factsAt_congr rfl)

theorem Drawn.recordAccess (h : Drawn e p g) (statement : StatementId) (access : FieldAccess) :
    Drawn e p (g.recordAccess statement access) := h.of_same rfl rfl rfl (factsAt_congr rfl)

theorem Drawn.editRecord (h : Drawn e p g) (n : NodeId) {edit : NodeRecord → NodeRecord}
    (hedit : ∀ r, (edit r).facts = r.facts) : Drawn e p (g.editRecord n edit) :=
  h.of_same rfl rfl rfl (factsAt_editRecord g n hedit)

theorem Drawn.attachChain {id : ChainId} (h : Drawn e p g) (hg : g.attachChain n id = .ok g') : Drawn e p g' := by
  obtain ⟨_, rfl⟩ := attachChain_eq_ok_iff.mp hg
  exact h.editRecord n fun _ => rfl

/-! ## Operations that add to paths and chains -/

theorem Drawn.pushConstraint (h : Drawn e p g) {c : Constraint} (hc : ∀ r ∈ c.path, r.IsOf e p) :
    Drawn e p (g.pushConstraint c) := by
  have hfacts := factsAt_pushConstraint g c
  rw [pushConstraint_rest] at hfacts ⊢
  refine ⟨⟨h.entrypoint, ?_, h.operands⟩, fun n => (hfacts n).symm ▸ h.blank n⟩
  intro c' hmem
  rcases Array.mem_push.mp hmem with hmem | rfl
  · exact h.paths c' hmem
  · exact hc

theorem Drawn.addConstraint (h : Drawn e p g) {kind : ConstraintKind} {path : Path} {r : Option ConstraintId}
    (hpath : ∀ r ∈ path, r.IsOf e p) (hg : g.addConstraint n kind m path = .ok (r, g')) : Drawn e p g' := by
  obtain ⟨_, _, _, ⟨_, _, rfl⟩ | ⟨_, _, rfl⟩ | ⟨_, _, _, rfl⟩⟩ := addConstraint_cases hg
  · exact h
  · exact h
  · exact h.pushConstraint hpath

theorem Drawn.chainFor {id : ChainId} (h : Drawn e p g) (hg : g.chainFor n = .ok (id, g')) : Drawn e p g' := by
  have hpush : Drawn e p { g with chains := g.chains.push {} } := by
    refine ⟨⟨h.entrypoint, h.paths, ?_⟩, fun n => factsAt_congr rfl n ▸ h.blank n⟩
    intro chain hmem
    rcases Array.mem_push.mp hmem with hmem | rfl
    · exact h.operands chain hmem
    · intro n r hr
      cases hr
  rcases chainFor_cases hg with ⟨_, rfl⟩ | ⟨_, hattach⟩
  · exact h
  · exact hpush.attachChain hattach

theorem Drawn.pushElement (h : Drawn e p g) (id : ChainId) {element : AppendElement}
    (he : ∀ n r, element = .operand n r → r.IsOf e p) : Drawn e p (g.pushElement id element) := by
  refine ⟨⟨h.entrypoint, h.paths, ?_⟩, fun n => factsAt_congr rfl n ▸ h.blank n⟩
  intro chain hmem n r hr
  obtain ⟨k, hk⟩ := Array.mem_iff_getElem?.mp hmem
  simp only [GraphTables.pushElement, Array.getElem?_modify] at hk
  split at hk
  · obtain ⟨c, hc, rfl⟩ := Option.map_eq_some_iff.mp hk
    rcases List.mem_append.mp hr with hr | hr
    · exact h.operands c (Array.mem_of_getElem? hc) n r hr
    · exact he n r (List.mem_singleton.mp hr).symm
  · exact h.operands chain (Array.mem_of_getElem? hk) n r hr

end GraphTables

end SinkFlow
