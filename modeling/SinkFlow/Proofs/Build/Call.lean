import SinkFlow.Build.Call
import SinkFlow.Proofs.Build.Drawing

/-! Calls without a body keep the graph one that is drawn from the program. -/

namespace SinkFlow

variable {e : EntrypointId} {p : Program}

theorem Edit.keeps_relate {target source : NodeId} {kind : ConstraintKind} {path : Path}
    (hpath : ∀ r ∈ path, r.IsOf e p) : Keeps (·.Drawn e p) (Edit.relate target kind source path) := by
  refine Edit.ensures_attempt ?_
  intro g a g' hg hf
  cases hok : g.addConstraint target kind source path with
  | error _ => simp [hok, Except.map] at hf
  | ok r =>
      simp only [hok, Except.map, Except.ok.injEq, Prod.mk.injEq, true_and] at hf
      exact hf ▸ hg.addConstraint hpath (FlowGraph.attempted_eq_ok_iff.mp hok)

theorem Program.keeps_slotNode (q : Program) (procedure : ProcedureId) (slot : ValueSlot) :
    Keeps (·.Drawn e p) (q.slotNode procedure slot) :=
  Edit.ensures_change fun _ hg => hg.valueNode _ _ _

namespace CallSite

variable {s : CallSite} (hs : s.here.IsOf e p) (q : Program)

theorem keeps_slotNode (slot : ValueSlot) : Keeps (·.Drawn e p) (s.slotNode q slot) :=
  Program.keeps_slotNode q _ _

theorem keeps_operandNode (index : Int) : Keeps (·.Drawn e p) (s.operandNode q index) := by
  unfold operandNode
  split
  · exact keeps_slotNode q _
  · exact .throw

include hs in
theorem path_isOf : ∀ r ∈ s.path, r.IsOf e p := by
  intro r hr
  rw [List.mem_singleton.mp hr]
  exact hs

include hs in
theorem keeps_modelToString (receiver : ValueSlot) : Keeps (·.Drawn e p) (s.modelToString q receiver) := by
  unfold modelToString
  split
  · exact .bind (keeps_slotNode q _) fun _ => .bind (keeps_slotNode q _) fun _ => Edit.keeps_relate (path_isOf hs)
  · exact .keeps_pure

include hs in
theorem keeps_modelAppend (receiver argument : ValueSlot) (result : Option ValueSlot) :
    Keeps (·.Drawn e p) (s.modelAppend q receiver argument result) := by
  unfold modelAppend
  refine .bind (keeps_slotNode q _) fun receiver => .bind (keeps_slotNode q _) fun argument => ?_
  refine .bind (Edit.keeps_relate (path_isOf hs)) fun _ => ?_
  refine .bind (Edit.ensures_attempt fun _ _ _ hg hf => hg.chainFor (FlowGraph.attempted_eq_ok_iff.mp hf)) fun chain => ?_
  refine .bind (Edit.keeps_update fun g hg => hg.pushElement chain ?_) fun _ => ?_
  · intro n r hr
    unfold appended at hr
    split at hr <;> cases hr
    exact hs
  · split
    · refine .bind (keeps_slotNode q _) fun result => .bind (Edit.keeps_relate (path_isOf hs)) fun _ => ?_
      exact Edit.ensures_attemptUpdate fun _ _ hg hf => hg.attachChain (FlowGraph.updated_eq_ok_iff.mp hf)
    · exact .keeps_pure

include hs in
theorem keeps_modelStringBuilder : Keeps (·.Drawn e p) (s.modelStringBuilder q) := by
  unfold modelStringBuilder
  split
  · exact .keeps_pure
  · simp only
    split
    · exact .bind (keeps_modelToString hs q _) fun _ => .keeps_pure
    · split
      · exact .keeps_pure
      · split
        · exact .keeps_pure
        · exact .bind (keeps_modelAppend hs q _ _ _) fun _ => .keeps_pure

include hs in
theorem keeps_applyRule (rule : PropagationRule) : Keeps (·.Drawn e p) (s.applyRule q rule) := by
  unfold applyRule
  refine .bind (keeps_operandNode q _) fun left => .bind (keeps_operandNode q _) fun right => ?_
  have hrelate : ∀ t u, Keeps (·.Drawn e p) (Edit.relate t .ge u s.path) :=
    fun _ _ => Edit.keeps_relate (path_isOf hs)
  have hright : Keeps (·.Drawn e p)
      (if rule.operator.flowsIntoRight then Edit.relate right .ge left s.path else pure ()) := by
    split
    · exact hrelate right left
    · exact .keeps_pure
  dsimp only
  split
  · exact .bind (hrelate left right) fun _ => hright
  · exact hright

include hs in
theorem keeps_applySource (slot : ValueSlot) (source : SourceCorrelation) :
    Keeps (·.Drawn e p) (s.applySource q slot source) :=
  .bind (keeps_slotNode q _) fun _ => .bind (Edit.ensures_change fun _ hg => hg.standIn _ _) fun _ =>
    Edit.keeps_relate (path_isOf hs)

theorem keeps_sortArguments (slots : List ValueSlot) (acc : Arguments) :
    Keeps (·.Drawn e p) (s.sortArguments q slots acc) := by
  induction slots generalizing acc with
  | nil => exact .keeps_pure
  | cons slot slots ih =>
      refine .bind (keeps_slotNode q _) fun n => .get_bind fun g _ => ?_
      split
      · exact ih _
      · exact ih _

theorem keeps_optionalNode (slot : Option ValueSlot) : Keeps (·.Drawn e p) (s.optionalNode q slot) := by
  cases slot with
  | none => exact .keeps_pure
  | some slot => exact (keeps_slotNode q slot).map

include hs in
theorem keeps_applyHeuristic (config : Config) : Keeps (·.Drawn e p) (s.applyHeuristic q config) := by
  have hrelate : ∀ t kind u, Keeps (·.Drawn e p) (Edit.relate t kind u s.path) :=
    fun _ _ _ => Edit.keeps_relate (path_isOf hs)
  unfold applyHeuristic
  refine .bind (keeps_optionalNode q _) fun receiver => .bind (keeps_optionalNode q _) fun result => ?_
  refine .bind (keeps_sortArguments q _ _) fun arguments => ?_
  refine .bind (.forM fun n _ => .forM fun c _ => hrelate _ _ _) fun _ => ?_
  split
  · exact .keeps_pure
  · exact .forM fun n _ => hrelate _ _ _

include hs in
theorem keeps_modelByRules (t : Setting) : Keeps (·.Drawn e p) (s.modelByRules t) := by
  unfold modelByRules
  split
  · exact .bind (.forM fun rule _ => keeps_applyRule hs _ rule) fun _ => .keeps_pure
  · split
    · exact .bind (keeps_applySource hs _ _ _) fun _ => .keeps_pure
    · exact .bind (keeps_applyHeuristic hs _ _) fun _ => .keeps_pure

include hs in
/-- Modelling a call adds constraints for the statement of the call only. -/
theorem keeps_model (t : Setting) : Keeps (·.Drawn e p) (s.model t) := by
  have hrest : ∀ built : Bool,
      Keeps (·.Drawn e p) (if built then pure .stringBuilder else s.modelByRules t) := by
    intro built
    split
    · exact .keeps_pure
    · exact keeps_modelByRules hs t
  unfold model
  dsimp only
  split
  · exact .bind (keeps_modelStringBuilder hs _) hrest
  · exact hrest false

theorem keeps_markOperands (indices : List Int) (acc : List NodeId) :
    Keeps (·.Drawn e p) (s.markOperands q indices acc) := by
  induction indices generalizing acc with
  | nil => exact .keeps_pure
  | cons index indices ih =>
      refine .bind (keeps_operandNode q _) fun n => ?_
      exact .bind (Edit.ensures_attemptUpdate fun _ _ hg hf => hg.markSpecial (FlowGraph.updated_eq_ok_iff.mp hf)) fun _ => ih _

theorem keeps_checkSink (t : Setting) : Keeps (·.Drawn e p) (s.checkSink t) := by
  unfold checkSink
  split
  · exact .keeps_pure
  · exact .bind (keeps_markOperands _ _ _) fun _ => Edit.ensures_change fun _ hg => hg.registerSink _

end CallSite

end SinkFlow
