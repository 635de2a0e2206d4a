import SinkFlow.Build.Run
import SinkFlow.Proofs.Flow.WellFormed

/-!
Which operations a build performs. Whether it succeeds or fails, all that handling a statement does to the graph are
operations of a few kinds, so whatever these leave alone is as it was.
-/

namespace SinkFlow

open GraphTables

variable {α β : Type} {A B : Operation → Prop}

/-! ## Kinds of operations -/

namespace GraphTables.Operation

/-- Asks for the node of a value, with the literal that the program gives it, adds a stand-in or relates two nodes. -/
inductive Draws (p : Program) : Operation → Prop where
  | value (q : ProcedureId) (slot : ValueSlot) : Draws p (.valueNode q slot (p.literal? q slot))
  | standIn (q : ProcedureId) (tag : String) : Draws p (.standIn q tag)
  | relation (target : NodeId) (kind : ConstraintKind) (source : NodeId) (path : Path) :
      Draws p (.addConstraint target kind source path)

/-- Adds a view of a field or lists one. -/
inductive Views : Operation → Prop where
  | object (q : ProcedureId) (o : ValueSlot) (field : FieldSignature) : Views (.instanceView q o field)
  | static (q : ProcedureId) (field : FieldSignature) : Views (.staticView q field)
  | representative (q : ProcedureId) (field : FieldSignature) : Views (.representative q field)
  | incoming (field : FieldSignature) (n : NodeId) : Views (.registerIncoming field n)
  | outgoing (field : FieldSignature) (n : NodeId) : Views (.registerOutgoing field n)
  | access (id : StatementId) (a : FieldAccess) : Views (.recordAccess id a)

/-- Begins an append chain, puts a node on one or appends to one. -/
inductive Chains : Operation → Prop where
  | begin (n : NodeId) : Chains (.chainFor n)
  | attach (n : NodeId) (id : ChainId) : Chains (.attachChain n id)
  | push (id : ChainId) (e : AppendElement) : Chains (.pushElement id e)

/-- Marks a sink operand or lists a sink. -/
inductive Marks : Operation → Prop where
  | special (n : NodeId) : Marks (.markSpecial n)
  | site (site : SinkSite) : Marks (.registerSink site)

end GraphTables.Operation

/-- What a statement of a program may do to the graph. -/
def StatementKind.Performs (p : Program) : StatementKind → Operation → Prop
  | .normal (.invoke _), op => op.Draws p ∨ op.Chains ∨ op.Marks
  | _, op => op.Draws p ∨ op.Views

/-! ## Edits -/

namespace Edit

/-- All that an edit does to a graph are operations of a kind, whether it succeeds or fails. -/
def Performs (A : Operation → Prop) (x : Edit α) : Prop :=
  ∀ g, ∃ ops, (∀ op ∈ ops, A op) ∧ (x.run g).2 = g.run ops

namespace Performs

variable {x : Edit α} {f : α → Edit β}

theorem mono (h : Performs A x) (hAB : ∀ op, A op → B op) : Performs B x := by
  intro g
  obtain ⟨ops, hops, hrun⟩ := h g
  exact ⟨ops, fun op hop => hAB op (hops op hop), hrun⟩

theorem pure (a : α) : Performs A (Pure.pure a : Edit α) := fun _ => ⟨[], nofun, rfl⟩

theorem throw (e : AnalysisError) : Performs A (throw e : Edit α) := fun _ => ⟨[], nofun, rfl⟩

theorem bind (hx : Performs A x) (hf : ∀ a, Performs A (f a)) : Performs A (x >>= f) := by
  intro g
  obtain ⟨ops, hops, hrun⟩ := hx g
  rw [run_bind]
  rcases hxg : x.run g with ⟨r, g₁⟩
  rw [hxg] at hrun
  cases r with
  | error e => exact ⟨ops, hops, hrun⟩
  | ok a =>
      obtain ⟨later, hlater, hrest⟩ := hf a g₁
      refine ⟨ops ++ later, fun op hop => ?_, ?_⟩
      · exact (List.mem_append.mp hop).elim (hops op) (hlater op)
      · rw [FlowGraph.run_append, ← hrun]
        exact hrest

theorem get_bind {f : FlowGraph → Edit β} (h : ∀ g, Performs A (f g)) : Performs A (get >>= f) := fun g => h g g

theorem map {f : α → β} (h : Performs A x) : Performs A (f <$> x) := by
  rw [← bind_pure_comp]
  exact h.bind fun _ => .pure _

theorem forM {as : List α} {f : α → Edit PUnit} (h : ∀ a ∈ as, Performs A (f a)) : Performs A (as.forM f) := by
  induction as with
  | nil => exact .pure _
  | cons a as ih => exact .bind (h a List.mem_cons_self) fun _ => ih fun b hb => h b (List.mem_cons_of_mem a hb)

theorem change {f : FlowGraph → α × FlowGraph} (op : FlowGraph → Operation) (hop : ∀ g, A (op g))
    (hf : ∀ g : FlowGraph, g.toGraphTables.perform (op g) = .ok (f g).2.toGraphTables) : Performs A (Edit.change f) := by
  intro g
  refine ⟨[op g], by simpa using hop g, FlowGraph.eq_of_tables ?_⟩
  simp only [FlowGraph.run, GraphTables.run, List.foldl, hf]
  rfl

theorem attempt {f : FlowGraph → Except AnalysisError (α × FlowGraph)} {op : Operation} (hop : A op)
    (hf : ∀ g, g.toGraphTables.perform op = (f g).map fun r => r.2.toGraphTables) : Performs A (Edit.attempt f) := by
  intro g
  refine ⟨[op], by simpa using hop, FlowGraph.eq_of_tables ?_⟩
  simp only [FlowGraph.run, GraphTables.run, List.foldl, hf, Edit.attempt, ExceptT.run, ExceptT.mk]
  cases f g <;> rfl

theorem attemptUpdate {f : FlowGraph → Except AnalysisError FlowGraph} {op : Operation} (hop : A op)
    (hf : ∀ g, g.toGraphTables.perform op = (f g).map FlowGraph.toGraphTables) :
    Performs A (Edit.attemptUpdate f) := by
  refine attempt hop fun g => ?_
  rw [hf]
  cases f g <;> rfl

/-- What every operation of a kind keeps, an edit keeps that performs no other ones. -/
theorem leads {C : Course GraphTables} (h : Performs A x)
    (hC : ∀ op, A op → ∀ g g', g.perform op = .ok g' → C.leads g g') (g : FlowGraph) :
    C.leads g (x.run g).2 := by
  obtain ⟨ops, hops, hrun⟩ := h g
  rw [hrun]
  exact leads_run (fun op hop => hC op (hops op hop)) g.toGraphTables

end Performs

theorem performs_relate (p : Program) (target source : NodeId) (kind : ConstraintKind) (path : Path) :
    Performs (Operation.Draws p) (Edit.relate target kind source path) := by
  refine .attempt (.relation target kind source path) fun g => ?_
  have hadd : (g.addConstraint target kind source path).map (fun r => r.2.toGraphTables) =
      (g.toGraphTables.addConstraint target kind source path).map Prod.snd := FlowGraph.tables_attempted
  rw [perform, ← hadd]
  cases g.addConstraint target kind source path <;> rfl

end Edit

theorem Program.performs_slotNode (p : Program) (q : ProcedureId) (slot : ValueSlot) :
    Edit.Performs (Operation.Draws p) (p.slotNode q slot) :=
  .change (fun _ => .valueNode q slot (p.literal? q slot)) (fun _ => .value q slot) fun _ => rfl

/-! ## Calls -/

namespace CallSite

variable (s : CallSite) (p : Program) (t : Setting)

theorem performs_slotNode (slot : ValueSlot) : Edit.Performs (Operation.Draws p) (s.slotNode p slot) :=
  p.performs_slotNode s.procedure slot

theorem performs_operandNode (index : Int) : Edit.Performs (Operation.Draws p) (s.operandNode p index) := by
  unfold operandNode
  split
  · exact performs_slotNode s p _
  · exact .throw _

theorem performs_modelToString (receiver : ValueSlot) :
    Edit.Performs (Operation.Draws p) (s.modelToString p receiver) := by
  unfold modelToString
  split
  · exact .bind (performs_slotNode s p _) fun _ => .bind (performs_slotNode s p _) fun _ =>
      Edit.performs_relate p _ _ _ _
  · exact .pure _

theorem performs_modelAppend (receiver argument : ValueSlot) (result : Option ValueSlot) :
    Edit.Performs (fun op => op.Draws p ∨ op.Chains) (s.modelAppend p receiver argument result) := by
  have hdraws : ∀ {α : Type} {x : Edit α}, Edit.Performs (Operation.Draws p) x →
      Edit.Performs (fun op => op.Draws p ∨ op.Chains) x := fun h => h.mono fun _ => .inl
  unfold modelAppend
  refine .bind (hdraws (performs_slotNode s p _)) fun n => .bind (hdraws (performs_slotNode s p _)) fun m => ?_
  refine .bind (hdraws (Edit.performs_relate p _ _ _ _)) fun _ => ?_
  refine .bind (.attempt (.inr (.begin n)) fun _ => FlowGraph.tables_attempted.symm) fun chain => ?_
  refine .bind (.change (fun g => .pushElement chain (s.appended g m)) (fun _ => .inr (.push _ _)) fun _ => rfl)
    fun _ => ?_
  split
  · refine .bind (hdraws (performs_slotNode s p _)) fun r => .bind (hdraws (Edit.performs_relate p _ _ _ _)) fun _ => ?_
    exact .attemptUpdate (.inr (.attach r chain)) fun _ => FlowGraph.tables_updated.symm
  · exact .pure _

theorem performs_modelStringBuilder :
    Edit.Performs (fun op => op.Draws p ∨ op.Chains) (s.modelStringBuilder p) := by
  unfold modelStringBuilder
  split
  · exact .pure _
  · dsimp only
    split
    · exact .bind ((performs_modelToString s p _).mono fun _ => .inl) fun _ => .pure _
    · split
      · exact .pure _
      · split
        · exact .pure _
        · exact .bind (performs_modelAppend s p _ _ _) fun _ => .pure _

theorem performs_applyRule (rule : PropagationRule) : Edit.Performs (Operation.Draws p) (s.applyRule p rule) := by
  unfold applyRule
  refine .bind (performs_operandNode s p _) fun left => .bind (performs_operandNode s p _) fun right => ?_
  have hright : Edit.Performs (Operation.Draws p)
      (if rule.operator.flowsIntoRight then Edit.relate right .ge left s.path else pure ()) := by
    split
    · exact Edit.performs_relate p _ _ _ _
    · exact .pure _
  dsimp only
  split
  · exact .bind (Edit.performs_relate p _ _ _ _) fun _ => hright
  · exact hright

theorem performs_applySource (slot : ValueSlot) (source : SourceCorrelation) :
    Edit.Performs (Operation.Draws p) (s.applySource p slot source) := by
  refine .bind (performs_slotNode s p _) fun n => .bind ?_ fun tag => Edit.performs_relate p _ _ _ _
  exact .change (fun _ => .standIn s.procedure source.tag) (fun _ => .standIn _ _) fun _ => rfl

theorem performs_sortArguments (slots : List ValueSlot) (acc : Arguments) :
    Edit.Performs (Operation.Draws p) (s.sortArguments p slots acc) := by
  induction slots generalizing acc with
  | nil => exact .pure _
  | cons slot slots ih =>
      refine .bind (performs_slotNode s p _) fun n => .get_bind fun g => ?_
      split
      · exact ih _
      · exact ih _

theorem performs_optionalNode (slot : Option ValueSlot) :
    Edit.Performs (Operation.Draws p) (s.optionalNode p slot) := by
  cases slot with
  | none => exact .pure _
  | some slot => exact (performs_slotNode s p slot).map

theorem performs_applyHeuristic (config : Config) :
    Edit.Performs (Operation.Draws p) (s.applyHeuristic p config) := by
  unfold applyHeuristic
  refine .bind (performs_optionalNode s p _) fun receiver => .bind (performs_optionalNode s p _) fun result => ?_
  refine .bind (performs_sortArguments s p _ _) fun arguments => ?_
  refine .bind (.forM fun n _ => .forM fun c _ => Edit.performs_relate p _ _ _ _) fun _ => ?_
  split
  · exact .pure _
  · exact .forM fun n _ => Edit.performs_relate p _ _ _ _

theorem performs_modelByRules : Edit.Performs (Operation.Draws t.program) (s.modelByRules t) := by
  unfold modelByRules
  split
  · exact .bind (.forM fun rule _ => performs_applyRule s _ rule) fun _ => .pure _
  · split
    · exact .bind (performs_applySource s _ _ _) fun _ => .pure _
    · exact .bind (performs_applyHeuristic s _ _) fun _ => .pure _

theorem performs_model :
    Edit.Performs (fun op => op.Draws t.program ∨ op.Chains) (s.model t) := by
  have hrest : ∀ built : Bool, Edit.Performs (fun op => op.Draws t.program ∨ op.Chains)
      (if built then pure .stringBuilder else s.modelByRules t) := by
    intro built
    split
    · exact .pure _
    · exact (performs_modelByRules s t).mono fun _ => .inl
  unfold model
  dsimp only
  split
  · exact .bind (performs_modelStringBuilder s _) hrest
  · exact hrest false

theorem performs_markOperands (indices : List Int) (acc : List NodeId) :
    Edit.Performs (fun op => op.Draws p ∨ op.Marks) (s.markOperands p indices acc) := by
  induction indices generalizing acc with
  | nil => exact .pure _
  | cons index indices ih =>
      refine .bind ((performs_operandNode s p _).mono fun _ => .inl) fun n => ?_
      exact .bind (.attemptUpdate (.inr (.special n)) fun _ => FlowGraph.tables_updated.symm) fun _ => ih _

theorem performs_checkSink :
    Edit.Performs (fun op => op.Draws t.program ∨ op.Marks) (s.checkSink t) := by
  unfold checkSink
  split
  · exact .pure _
  · refine .bind (performs_markOperands s _ _ _) fun arguments => ?_
    exact .change (fun g => .registerSink _) (fun _ => .inr (.site _)) fun _ => rfl

end CallSite

/-! ## Statements -/

namespace Build

/-- A step of a build performs operations of a kind; besides it may change what the run remembers, and the counts. -/
def Performs (A : Operation → Prop) (x : Build α) : Prop :=
  ∀ s, ∃ ops pairing stats, (∀ op ∈ ops, A op) ∧
    (x.run s).2 = { s with graph := s.graph.run ops, pairing, stats }

namespace Performs

variable {x : Build α} {f : α → Build β}

theorem mono (h : Performs A x) (hAB : ∀ op, A op → B op) : Performs B x := by
  intro s
  obtain ⟨ops, pairing, stats, hops, hrun⟩ := h s
  exact ⟨ops, pairing, stats, fun op hop => hAB op (hops op hop), hrun⟩

theorem pure (a : α) : Performs A (Pure.pure a : Build α) := fun s => ⟨[], s.pairing, s.stats, nofun, rfl⟩

theorem bind (hx : Performs A x) (hf : ∀ a, Performs A (f a)) : Performs A (x >>= f) := by
  intro s
  obtain ⟨ops, pairing, stats, hops, hrun⟩ := hx s
  rw [run_bind]
  rcases hxs : x.run s with ⟨r, s₁⟩
  rw [hxs] at hrun
  cases r with
  | error e => exact ⟨ops, pairing, stats, hops, hrun⟩
  | ok a =>
      obtain ⟨later, pairing', stats', hlater, hrest⟩ := hf a s₁
      refine ⟨ops ++ later, pairing', stats', fun op hop => ?_, ?_⟩
      · exact (List.mem_append.mp hop).elim (hops op) (hlater op)
      · dsimp only at hrun ⊢
        rw [hrest, hrun, FlowGraph.run_append]

theorem get_bind {f : BuildState → Build β} (h : ∀ s, Performs A (f s)) : Performs A (get >>= f) := fun s => h s s

theorem forM {as : List α} {f : α → Build PUnit} (h : ∀ a ∈ as, Performs A (f a)) : Performs A (as.forM f) := by
  induction as with
  | nil => exact .pure _
  | cons a as ih => exact .bind (h a List.mem_cons_self) fun _ => ih fun b hb => h b (List.mem_cons_of_mem a hb)

theorem edit {x : Edit α} (h : Edit.Performs A x) : Performs A (Build.edit x) := by
  intro s
  obtain ⟨ops, hops, hrun⟩ := h s.graph
  refine ⟨ops, s.pairing, s.stats, hops, ?_⟩
  rw [← hrun]
  rfl

theorem count (f : BuildStats → BuildStats) : Performs A (Build.count f) :=
  fun s => ⟨[], s.pairing, f s.stats, nofun, rfl⟩

theorem remember (f : Pairing → Pairing) : Performs A (Build.remember f) :=
  fun s => ⟨[], f s.pairing, s.stats, nofun, rfl⟩

theorem handled (h : Performs A x) (s : BuildState) : (x.run s).2.handled = s.handled := by
  obtain ⟨ops, pairing, stats, _, hrun⟩ := h s
  rw [hrun]

/-- What every operation of a kind keeps, a step keeps that performs no other ones. -/
theorem leads {C : Course GraphTables} (h : Performs A x)
    (hC : ∀ op, A op → ∀ g g', g.perform op = .ok g' → C.leads g g') (s : BuildState) :
    C.leads s.graph (x.run s).2.graph := by
  obtain ⟨ops, pairing, stats, hops, hrun⟩ := h s
  rw [hrun]
  exact leads_run (fun op hop => hC op (hops op hop)) s.graph.toGraphTables

end Performs

theorem performs_slotNode (p : Program) (q : ProcedureId) (slot : ValueSlot) :
    Performs (Operation.Draws p) (edit (p.slotNode q slot)) := .edit (p.performs_slotNode q slot)

theorem performs_relate (p : Program) (target source : NodeId) (kind : ConstraintKind) (path : Path) :
    Performs (Operation.Draws p) (edit (Edit.relate target kind source path)) := .edit (Edit.performs_relate p _ _ _ _)

theorem performs_unify (p : Program) (field : FieldSignature) (view : NodeId) (path : Path) :
    Performs (Operation.Draws p) (unify field view path) :=
  .get_bind fun _ => .bind (.forM fun _ _ => performs_relate p _ _ _ _) fun _ => .remember _

theorem performs_newView (q : ProcedureId) (object : Option ValueSlot) (field : FieldSignature) :
    Performs Operation.Views (newView q object field) := by
  refine .edit ?_
  cases object with
  | none => exact .change (fun _ => .staticView q field) (fun _ => .static q field) fun _ => rfl
  | some o => exact .change (fun _ => .instanceView q o field) (fun _ => .object q o field) fun _ => rfl

theorem performs_relateSlots (p : Program) (q : ProcedureId) (target source : ValueSlot) (kind : ConstraintKind)
    (path : Path) : Performs (Operation.Draws p) (relateSlots p q target kind source path) :=
  .edit (.bind (p.performs_slotNode q _) fun _ => .bind (p.performs_slotNode q _) fun _ =>
    Edit.performs_relate p _ _ _ _)

theorem performs_returned (p : Program) (q : ProcedureId) (slot : ValueSlot) (here : StatementRef) :
    Performs (Operation.Draws p) (returned p q slot here) :=
  .bind (performs_slotNode p q slot) fun _ => .remember _

theorem performs_visitCall (t : Setting) (site : CallSite) :
    Performs (fun op => op.Draws t.program ∨ op.Chains ∨ op.Marks) (visitCall t site) := by
  unfold visitCall
  refine .bind (.edit ((site.performs_checkSink t).mono fun _ => .imp_right .inr)) fun _ => ?_
  split
  · exact .bind (.edit ((site.performs_model t).mono fun _ => .imp_right .inl)) fun _ => .count _
  · exact .pure _

theorem performs_visitInstruction (t : Setting) (q : ProcedureId) (here : StatementRef) (instruction : Instruction) :
    Performs (StatementKind.Performs t.program (.normal instruction)) (visitInstruction t q here instruction) := by
  have hdraws : ∀ {α : Type} {x : Build α}, Performs (Operation.Draws t.program) x →
      Performs (fun op => op.Draws t.program ∨ op.Views) x := fun h => h.mono fun _ => .inl
  have hviews : ∀ {α : Type} {x : Build α}, Performs Operation.Views x →
      Performs (fun op => op.Draws t.program ∨ op.Views) x := fun h => h.mono fun _ => .inr
  cases instruction with
  | getField target object field =>
      refine .bind (hdraws (performs_slotNode _ q target)) fun n => .bind (hviews (performs_newView q object field)) ?_
      refine fun view => .bind (hdraws (performs_relate _ _ _ _ _)) fun _ => .bind (hviews (.edit fun g => ?_)) ?_
      · refine ⟨[.registerIncoming field view, .recordAccess here.statement ⟨field, .get⟩], fun op hop => ?_, rfl⟩
        simp only [List.mem_cons, List.not_mem_nil, or_false] at hop
        rcases hop with rfl | rfl
        · exact .incoming field view
        · exact .access _ _
      · exact fun _ => hdraws (performs_unify _ _ _ _)
  | putField object value field =>
      refine .bind (hdraws (performs_slotNode _ q value)) fun n => .bind (hviews (performs_newView q object field)) ?_
      refine fun view => .bind (hdraws (performs_relate _ _ _ _ _)) fun _ => .bind (hviews (.edit fun g => ?_)) ?_
      · refine ⟨[.registerOutgoing field view, .recordAccess here.statement ⟨field, .put⟩], fun op hop => ?_, rfl⟩
        simp only [List.mem_cons, List.not_mem_nil, or_false] at hop
        rcases hop with rfl | rfl
        · exact .outgoing field view
        · exact .access _ _
      · exact fun _ => hdraws (performs_unify _ _ _ _)
  | checkCast _ _ | arrayLoad _ _ | arrayStore _ _ => exact hdraws (performs_relateSlots _ _ _ _ _ _)
  | binaryOp target left right =>
      exact .bind (hdraws (performs_relateSlots _ _ _ _ _ _)) fun _ => hdraws (performs_relateSlots _ _ _ _ _ _)
  | invoke call => exact performs_visitCall t _
  | «return» value =>
      cases value with
      | none => exact .pure _
      | some value => exact hdraws (performs_returned _ _ _ _)
  | new _ | instanceOf _ _ | other => exact .pure _

theorem performs_visitHeap (t : Setting) (q : ProcedureId) (here : StatementRef) (location : HeapLocation) :
    Performs (fun op => op.Draws t.program ∨ op.Views) (visitHeap t q here location) := by
  unfold visitHeap
  split
  · exact .pure _
  · split
    · exact .pure _
    · refine .bind (.edit ?_) fun _ => (performs_unify _ _ _ _).mono fun _ => .inl
      exact .change (fun _ => .representative q _) (fun _ => .inr (.representative q _)) fun _ => rfl

/-- Handling a statement does nothing to the graph but what its kind may do. -/
theorem performs_visit (t : Setting) (statement : Statement) :
    Performs (statement.kind.Performs t.program) (visit t statement) := by
  obtain ⟨id, q, kind⟩ := statement
  refine .get_bind fun s => ?_
  cases kind with
  | phi target operands =>
      refine (Performs.bind (performs_slotNode _ _ _) fun n => .forM fun operand _ => .edit ?_).mono fun _ => .inl
      exact .bind (Program.performs_slotNode _ _ _) fun m => Edit.performs_relate _ _ _ _ _
  | normal instruction => exact performs_visitInstruction t _ _ instruction
  | paramCaller callee index value =>
      exact (Performs.bind (performs_slotNode _ _ _) fun _ => .remember _).mono fun _ => .inl
  | paramCallee index value =>
      refine (Performs.bind (performs_slotNode _ _ _) fun n => .get_bind fun s => ?_).mono fun _ => .inl
      exact .bind (.remember _) fun _ => .forM fun _ _ => performs_relate _ _ _ _ _
  | normalReturnCaller callee value =>
      refine (Performs.bind (performs_slotNode _ _ _) fun n => .get_bind fun s => ?_).mono fun _ => .inl
      split
      · exact performs_relate _ _ _ _ _
      · exact .count _
  | normalReturnCallee value => exact (performs_returned _ _ _ _).mono fun _ => .inl
  | heapParamCallee location | heapReturnCaller location | heapReturnCallee location => exact performs_visitHeap _ _ _ _

end Build

end SinkFlow
