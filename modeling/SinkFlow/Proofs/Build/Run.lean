import SinkFlow.Build.Run
import SinkFlow.Proofs.Build.Call

/-!
A build draws its graph from the program: every statement that it handles is one of the program, and what a run
remembers about parameters and results refers to such statements too.
-/

namespace SinkFlow

variable {e : EntrypointId} {p : Program}

/-- The state of a build that draws its graph from a program. -/
structure BuildState.Drawn (e : EntrypointId) (p : Program) (s : BuildState) : Prop where
  graph : s.graph.Drawn e p
  parameters : ∀ k actuals, s.pairing.parameters.get? k = some actuals → ∀ a ∈ actuals, a.2.IsOf e p
  returns : ∀ k a, s.pairing.returns.get? k = some a → a.2.IsOf e p

namespace Build

variable {α : Type} {s : BuildState} {here : StatementRef}

/-! ## Elementary steps -/

theorem keeps_edit {x : Edit α} (h : Keeps (·.Drawn e p) x) : Keeps (·.Drawn e p) (edit x) := by
  intro s a s' hs hrun
  rcases hx : x.runOn s.graph with ⟨r, g⟩
  have he : (edit x).run s = (r, { s with graph := g }) := by
    simp only [edit, ExceptT.run, ExceptT.mk, hx]
  rw [he] at hrun
  cases hrun
  exact ⟨h s.graph a g hs.graph hx, hs.parameters, hs.returns⟩

theorem keeps_count (f : BuildStats → BuildStats) : Keeps (·.Drawn e p) (count f) :=
  .keeps_modify fun _ hs => ⟨hs.graph, hs.parameters, hs.returns⟩

theorem keeps_remember {f : Pairing → Pairing}
    (hp : ∀ s : BuildState, s.Drawn e p → ∀ k actuals, (f s.pairing).parameters.get? k = some actuals →
      ∀ a ∈ actuals, a.2.IsOf e p)
    (hr : ∀ s : BuildState, s.Drawn e p → ∀ k a, (f s.pairing).returns.get? k = some a → a.2.IsOf e p) :
    Keeps (·.Drawn e p) (remember f) :=
  .keeps_modify fun s hs => ⟨hs.graph, hp s hs, hr s hs⟩

theorem keeps_relate {t u : NodeId} {kind : ConstraintKind} {path : Path} (hpath : ∀ r ∈ path, r.IsOf e p) :
    Keeps (·.Drawn e p) (edit (Edit.relate t kind u path)) := keeps_edit (Edit.keeps_relate hpath)

theorem keeps_slotNode (q : Program) (procedure : ProcedureId) (slot : ValueSlot) :
    Keeps (·.Drawn e p) (edit (q.slotNode procedure slot)) := keeps_edit (Program.keeps_slotNode q _ _)

theorem keeps_unify (field : FieldSignature) (view : NodeId) {path : Path} (hpath : ∀ r ∈ path, r.IsOf e p) :
    Keeps (·.Drawn e p) (unify field view path) :=
  .get_bind fun _ _ => .bind (.forM fun _ _ => keeps_relate hpath) fun _ =>
    keeps_remember (fun _ hs => hs.parameters) fun _ hs => hs.returns

theorem keeps_newView (procedure : ProcedureId) (object : Option ValueSlot) (field : FieldSignature) :
    Keeps (·.Drawn e p) (newView procedure object field) := by
  refine keeps_edit (Edit.ensures_change fun g hg => ?_)
  cases object with
  | none => exact hg.staticView procedure field
  | some o => exact hg.instanceView procedure o field

theorem keeps_relateSlots (q : Program) (procedure : ProcedureId) (t u : ValueSlot) (kind : ConstraintKind)
    {path : Path} (hpath : ∀ r ∈ path, r.IsOf e p) :
    Keeps (·.Drawn e p) (relateSlots q procedure t kind u path) :=
  keeps_edit (.bind (Program.keeps_slotNode q _ _) fun _ => .bind (Program.keeps_slotNode q _ _) fun _ =>
    Edit.keeps_relate hpath)

section Visit

variable (hhere : here.IsOf e p)

include hhere

theorem isOf_here : ∀ r ∈ [here], r.IsOf e p := by
  intro r hr
  rw [List.mem_singleton.mp hr]
  exact hhere

theorem keeps_returned (q : Program) (procedure : ProcedureId) (slot : ValueSlot) :
    Keeps (·.Drawn e p) (returned q procedure slot here) := by
  refine .bind (keeps_slotNode q _ _) fun n => keeps_remember (fun _ hs => hs.parameters) ?_
  intro s hs k a ha
  rw [Table.get?_insert] at ha
  split at ha
  · cases ha
    exact hhere
  · exact hs.returns k a ha

theorem keeps_visitCall (t : Setting) (procedure : ProcedureId) (call : Invoke) :
    Keeps (·.Drawn e p) (visitCall t ⟨procedure, here, call⟩) := by
  unfold visitCall
  refine .bind (keeps_edit (CallSite.keeps_checkSink t)) fun _ => ?_
  split
  · exact .bind (keeps_edit (CallSite.keeps_model hhere t)) fun _ => keeps_count _
  · exact .keeps_pure

theorem keeps_visitInstruction (t : Setting) (procedure : ProcedureId) (instruction : Instruction) :
    Keeps (·.Drawn e p) (visitInstruction t procedure here instruction) := by
  have hpath := isOf_here hhere
  cases instruction with
  | getField target object field =>
      refine .bind (keeps_slotNode _ _ _) fun n => .bind (keeps_newView _ _ _) fun view => ?_
      refine .bind (keeps_relate hpath) fun _ => .bind (keeps_edit ?_) fun _ => keeps_unify _ _ hpath
      exact Edit.keeps_update fun g hg => (hg.registerIncoming _ _).recordAccess _ _
  | putField object value field =>
      refine .bind (keeps_slotNode _ _ _) fun n => .bind (keeps_newView _ _ _) fun view => ?_
      refine .bind (keeps_relate hpath) fun _ => .bind (keeps_edit ?_) fun _ => keeps_unify _ _ hpath
      exact Edit.keeps_update fun g hg => (hg.registerOutgoing _ _).recordAccess _ _
  | checkCast target value => exact keeps_relateSlots _ _ _ _ _ hpath
  | arrayLoad target array => exact keeps_relateSlots _ _ _ _ _ hpath
  | arrayStore array value => exact keeps_relateSlots _ _ _ _ _ hpath
  | «return» value =>
      cases value with
      | none => exact .keeps_pure
      | some value => exact keeps_returned hhere _ _ _
  | binaryOp target left right =>
      exact .bind (keeps_relateSlots _ _ _ _ _ hpath) fun _ => keeps_relateSlots _ _ _ _ _ hpath
  | invoke call => exact keeps_visitCall hhere t procedure call
  | new _ | instanceOf _ _ | other => exact .keeps_pure

theorem keeps_visitHeap (t : Setting) (procedure : ProcedureId) (location : HeapLocation) :
    Keeps (·.Drawn e p) (visitHeap t procedure here location) := by
  unfold visitHeap
  split
  · exact .keeps_pure
  · split
    · exact .keeps_pure
    · refine .bind (keeps_edit (Edit.ensures_change fun g hg => hg.representative _ _)) fun _ => ?_
      exact keeps_unify _ _ (isOf_here hhere)

theorem keeps_visitPhi (q : Program) (procedure : ProcedureId) (target : ValueSlot)
    (operands : List (Option ValueSlot)) : Keeps (·.Drawn e p) (visitPhi q procedure here target operands) := by
  refine .bind (keeps_slotNode q _ _) fun joined => .forM fun operand _ => keeps_edit ?_
  exact .bind (Program.keeps_slotNode q _ _) fun _ => Edit.keeps_relate (isOf_here hhere)

theorem keeps_visitParameter (q : Program) (procedure : ProcedureId) (index : UInt64) (slot : ValueSlot) :
    Keeps (·.Drawn e p) (visitParameter q procedure here index slot) := by
  refine .bind (keeps_slotNode q _ _) fun formal => .get_bind fun s hs => ?_
  refine .bind (keeps_remember ?_ fun _ hs => hs.returns) fun _ => .forM fun actual hactual => keeps_relate ?_
  · intro s hs k actuals hk
    rw [Table.get?_erase] at hk
    split at hk
    · cases hk
    · exact hs.parameters k actuals hk
  · have hisOf : actual.2.IsOf e p := by
      cases hget : s.pairing.parameters.get? (procedure, index) with
      | none => simp [hget] at hactual
      | some actuals => exact hs.parameters _ actuals hget actual (by simpa [hget] using hactual)
    intro r hr
    rcases List.mem_cons.mp hr with rfl | hr
    · exact hisOf
    · exact isOf_here hhere r hr

end Visit

/-! ## Statements and runs -/

theorem keeps_visit (t : Setting) (statement : Statement) (hmem : statement.id ∈ p.statementIds) :
    Keeps (·.Drawn e p) (visit t statement) := by
  refine .get_bind fun s hs => ?_
  have hhere : (⟨s.graph.entrypoint, statement.id⟩ : StatementRef).IsOf e p := ⟨hs.graph.entrypoint, hmem⟩
  simp only
  split
  · exact keeps_visitPhi hhere _ _ _ _
  · exact keeps_visitInstruction hhere _ _ _
  · rename_i callee index value _
    refine .bind (keeps_slotNode _ _ _) fun actual => keeps_remember ?_ fun _ hs => hs.returns
    intro s hs k actuals hk a ha
    rw [Table.get?_insert] at hk
    split at hk
    · cases hk
      rcases List.mem_append.mp ha with ha | ha
      · cases hget : s.pairing.parameters.get? (callee, index) with
        | none => simp [hget] at ha
        | some passed => exact hs.parameters _ passed hget a (by simpa [hget] using ha)
      · rw [List.mem_singleton.mp ha]
        exact hhere
    · exact hs.parameters k actuals hk a ha
  · exact keeps_visitParameter hhere _ _ _ _
  · refine .bind (keeps_slotNode _ _ _) fun received => .get_bind fun s hs => ?_
    split
    · rename_i origin hget
      refine keeps_relate fun r hr => ?_
      rcases List.mem_cons.mp hr with rfl | hr
      · exact hs.returns _ _ hget
      · exact isOf_here hhere r hr
    · exact keeps_count _
  · exact keeps_returned hhere _ _ _
  · exact keeps_visitHeap hhere _ _ _
  · exact keeps_visitHeap hhere _ _ _
  · exact keeps_visitHeap hhere _ _ _

theorem ensures_lookUp (q : Program) (id : StatementId) :
    Ensures (·.Drawn e p) (lookUp q id) fun r s => s.Drawn e p ∧ q.statement? id = r := by
  unfold lookUp
  dsimp only
  split
  · refine .bind (.keeps_modify fun s hs => ?_) fun _ => .pure fun _ hs => ⟨hs, rfl⟩
    exact ⟨hs.graph, hs.parameters, hs.returns⟩
  · exact .pure fun _ hs => ⟨hs, rfl⟩

theorem keeps_process (t : Setting) (id : StatementId) : Keeps (·.Drawn e t.program) (process t id) := by
  refine .bind_of (ensures_lookUp t.program id) fun r hr => ?_
  cases r with
  | none => exact .bind (keeps_count _) fun _ => .keeps_pure
  | some statement =>
      have hlisted : statement.id ∈ t.program.statementIds := by
        rw [t.program.id_of_statement? hr]
        exact t.program.mem_statementIds hr
      refine .get_bind fun s _ => ?_
      rcases s.gate.arrive id (t.program.predecessorCount id) with ⟨expand, gate⟩
      refine .bind (.keeps_modify fun s hs => ⟨hs.graph, hs.parameters, hs.returns⟩) fun _ => ?_
      refine .bind (keeps_visit t statement hlisted) fun _ => ?_
      dsimp only
      split
      · exact .bind (keeps_count _) fun _ => .keeps_pure
      · exact .keeps_pure

/-- What every statement keeps, a run keeps. -/
theorem keeps_explore {I : BuildState → Prop} {t : Setting} (hprocess : ∀ id, Keeps I (process t id)) (limit : Nat)
    (queue visited : List StatementId) : Keeps I (explore t limit queue visited) := by
  induction limit generalizing queue visited with
  | zero => exact .keeps_pure
  | succ limit ih =>
      cases queue with
      | nil => exact .keeps_pure
      | cons id queue =>
          refine .bind (hprocess id) fun expand => ?_
          split
          · exact ih _ _
          · exact ih _ _

theorem keeps_runRoots {I : BuildState → Prop} {t : Setting} (hprocess : ∀ id, Keeps I (process t id))
    (hempty : ∀ s, I s → I { s with pairing := {} }) (hcount : ∀ f, Keeps I (count f)) (roots : List StatementId) :
    Keeps I (runRoots t roots) := by
  induction roots with
  | nil => exact .keeps_pure
  | cons root roots ih =>
      refine .get_bind fun s _ => ?_
      split
      · exact hcount _
      · exact .bind (.bind (.keeps_modify hempty) fun _ => keeps_explore hprocess _ _ _) fun _ => ih

theorem keeps_complete (t : Setting) : Keeps (·.Drawn e t.program) (complete t) := by
  refine .bind (keeps_edit (Edit.ensures_attemptUpdate ?_)) fun _ => ?_
  · intro g g' hg hf
    obtain ⟨_, rfl⟩ := FlowGraph.advance_eq_ok_iff.mp hf
    exact hg.of_same rfl rfl rfl (GraphTables.factsAt_congr rfl)
  · have hroots := keeps_runRoots (keeps_process t) (fun _ hs => ⟨hs.graph, nofun, nofun⟩) (keeps_count (e := e))
    exact .bind (keeps_count _) fun _ => .bind (hroots _) fun _ => .get_bind fun _ _ => .keeps_pure

end Build

/-- A build that succeeds leaves a graph whose paths lead over statements of the program, and in which nothing is
known yet. -/
theorem FlowGraph.drawn_build {t : Setting} {cancelled : Bool} {stats : BuildStats}
    (h : (({ entrypoint := e } : FlowGraph).build t cancelled).result = .ok stats) :
    (({ entrypoint := e } : FlowGraph).build t cancelled).graph.Drawn e t.program := by
  let s₀ : BuildState := { graph := { entrypoint := e }, cancelled }
  have hstart : s₀.Drawn e t.program := by
    refine ⟨⟨⟨rfl, fun _ hc => ?_, fun _ hc => ?_⟩, fun _ _ => ?_⟩, nofun, nofun⟩
    · exact absurd hc (Array.not_mem_empty _)
    · exact absurd hc (Array.not_mem_empty _)
    · simp [s₀, GraphTables.factsAt, GraphTables.record?]
  rcases hrun : (Build.complete t).run s₀ with ⟨r, s₁⟩
  have hb : ({ entrypoint := e } : FlowGraph).build t cancelled = ⟨r, s₁.graph, s₁.cancelled⟩ := by
    simp only [FlowGraph.build]
    rw [hrun]
  rw [hb] at h ⊢
  simp only at h
  subst h
  exact (Build.keeps_complete t s₀ stats s₁ hstart hrun).graph

end SinkFlow
