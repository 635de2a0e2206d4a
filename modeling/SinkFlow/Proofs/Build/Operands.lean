import SinkFlow.Proofs.Build.Extension

/-!
Which calls are refused. Modelling a call and listing it as a sink succeed unless the call lacks an operand that the
sink definition of its method or one of its rules names. All other steps only need nodes that are there.
-/

namespace SinkFlow

/-- A call at a statement lacks the operand that an index means. The index is one that the sink definition of its
method names, or one of its rules if the call has no body and is not modelled as one of a string builder. -/
inductive Setting.Unresolved (t : Setting) (id : StatementId) (call : Invoke) (index : Int) : Prop where
  | sink (definition : SinkDefinition) (hsink : t.rules.sink? call.signature = some definition)
      (hindex : index ∈ definition.arguments) (hoperand : call.operand index = none)
  | rule (set : PropagationRuleSet) (rule : PropagationRule)
      (hapi : call.library ∨ t.program.successors id = []) (hmodel : ¬ call.BuildsText t.config)
      (hset : t.rules.propagation? call.signature = some set) (hrule : rule ∈ set.rules)
      (hindex : index = rule.left ∨ index = rule.right) (hoperand : call.operand index = none)

/-- A call has both operands that a rule names. -/
def Invoke.Fits (call : Invoke) (rule : PropagationRule) : Prop :=
  ∀ index, index = rule.left ∨ index = rule.right → call.operand index ≠ none

/-- An error says that a call at a statement lacks an operand. -/
def Setting.Refuses (t : Setting) (id : StatementId) (call : Invoke) (e : AnalysisError) : Prop :=
  ∃ index, t.Unresolved id call index ∧ e = .unresolvedOperand call.signature index call.uses.length

open FlowGraph

open GraphTables (SameTables)

variable {t : Setting} {g : FlowGraph} {E : AnalysisError → Prop}

theorem Edit.ends_relate {target source : NodeId} {kind : ConstraintKind} {path : Path} (hg : g.Sound t)
    (htarget : (g.node? target).isSome) (hsource : (g.node? source).isSome)
    (hreason : g.Justified t ⟨target, kind, source, path⟩) :
    (drawing t).Ends g (Edit.relate target kind source path) (fun _ g' => g'.Related target kind source) E := by
  obtain ⟨r, g', hadd, hl, hrelated⟩ := addConstraint_eq_ok hg.phase htarget hsource hreason
  have hrelate : (g.addConstraint target kind source path).map (fun r => ((), r.2)) = .ok ((), g') := by
    simp [hadd, Except.map]
  exact Edit.ends_attempt hrelate hl hrelated

theorem Edit.ends_relateValues {q q' : ProcedureId} {a b : ValueSlot} {n m : NodeId} {kind : ConstraintKind}
    {path : Path} (hg : g.Sound t) (hn : g.valueNode? q a = some n) (hm : g.valueNode? q' b = some m)
    (hreason : g.Justified t ⟨n, kind, m, path⟩) :
    (drawing t).Ends g (Edit.relate n kind m path) (fun _ g' => g'.Related n kind m) E :=
  Edit.ends_relate hg (hg.node?_isSome hn) (hg.node?_isSome hm) hreason

theorem Program.ends_slotNode (q : ProcedureId) (slot : ValueSlot) :
    (drawing t).Ends g (t.program.slotNode q slot) (fun n g' => g'.valueNode? q slot = some n) E :=
  Edit.ends_change (GraphTables.leads_valueNode g q slot) (GraphTables.valueNode?_valueNode g q slot _)

namespace CallSite

variable {s : CallSite}

theorem ends_slotNode (slot : ValueSlot) :
    (drawing t).Ends g (s.slotNode t.program slot) (fun n g' => g'.valueNode? s.procedure slot = some n) E :=
  Program.ends_slotNode _ _

theorem ends_operandNode {index : Int}
    (herror : s.call.operand index = none → E (.unresolvedOperand s.call.signature index s.call.uses.length)) :
    (drawing t).Ends g (s.operandNode t.program index)
      (fun n g' => ∃ slot, s.call.operand index = some slot ∧ g'.valueNode? s.procedure slot = some n) E := by
  unfold operandNode
  split
  · rename_i slot hslot
    exact (ends_slotNode slot).imp fun n g' _ hn => ⟨slot, hslot, hn⟩
  · rename_i hnone
    exact .throw (herror hnone)

/-! ## String builders -/

theorem ends_modelToString (hg : g.Sound t) (hcall : s.here.NamesCall t g s.procedure s.call)
    (hclass : t.config.isStringBuilderClass s.call.signature.className)
    (hname : s.call.signature.methodName = "toString") {receiver : ValueSlot}
    (hreceiver : s.call.receiver = some receiver) :
    (drawing t).Ends g (s.modelToString t.program receiver) (fun _ _ => True) E := by
  unfold modelToString
  split
  · rename_i slot hslot
    refine .bind (ends_slotNode _) fun m g₁ hl₁ hm => ?_
    refine .bind (ends_slotNode _) fun n g₂ hl₂ hn => ?_
    have hm := hl₂.1.values _ _ _ hm
    have hcall := (hcall.mono hl₁.1).mono hl₂.1
    refine (Edit.ends_relateValues (hl₂.2 (hl₁.2 hg)) hn hm ?_).imp fun _ _ _ _ => trivial
    exact .built hcall hclass (.inr hname) hreceiver hslot hn hm
  · exact .pure trivial

theorem ends_modelAppend (hg : g.Sound t) (hcall : s.here.NamesCall t g s.procedure s.call)
    (hclass : t.config.isStringBuilderClass s.call.signature.className)
    (hmethod : s.call.signature.methodName = "append" ∨ s.call.signature.isConstructor) {receiver argument : ValueSlot}
    (hreceiver : s.call.receiver = some receiver) (hargument : s.call.arguments.head? = some argument)
    {result : Option ValueSlot}
    (hresult : ∀ slot, result = some slot → s.call.result = some slot ∧ s.call.signature.methodName = "append") :
    (drawing t).Ends g (s.modelAppend t.program receiver argument result) (fun _ _ => True) E := by
  unfold modelAppend
  refine .bind (ends_slotNode _) fun n g₁ hl₁ hn => ?_
  refine .bind (ends_slotNode _) fun m g₂ hl₂ hm => ?_
  have hn := hl₂.1.values _ _ _ hn
  have hcall := (hcall.mono hl₁.1).mono hl₂.1
  have hg₂ := hl₂.2 (hl₁.2 hg)
  refine .bind (Edit.ends_relateValues hg₂ hn hm ?_) fun _ g₃ hl₃ _ => ?_
  · exact .append hcall hclass hmethod hreceiver hargument hn hm
  have hn := hl₃.1.values _ _ _ hn
  have hg₃ := hl₃.2 hg₂
  obtain ⟨chain, g', hchain, htables⟩ := chainFor_eq_ok (hg₃.node?_isSome hn)
  refine .bind (Q := fun _ _ => True) (Edit.ends_attempt hchain htables.leads trivial) fun id g₄ hl₄ _ => ?_
  refine .bind (Q := fun _ _ => True) (Edit.ends_change (SameTables.pushElement _ _ _).leads trivial)
    fun _ g₅ hl₅ _ => ?_
  split
  · rename_i slot
    obtain ⟨hresult, happend⟩ := hresult slot rfl
    refine .bind (ends_slotNode _) fun r g₆ hl₆ hr => ?_
    have hl : (drawing t).leads g₃ g₆ := (drawing t).trans ((drawing t).trans hl₄ hl₅) hl₆
    have hn := hl.1.values _ _ _ hn
    have hg₆ := hl.2 hg₃
    refine .bind (Edit.ends_relateValues hg₆ hr hn ?_) fun _ g₇ hl₇ _ => ?_
    · exact .built ((hcall.mono hl₃.1).mono hl.1) hclass (.inl happend) hreceiver hresult hr hn
    · obtain ⟨g', hattach, htables⟩ := attachChain_eq_ok (hl₇.1.node?_isSome (hg₆.node?_isSome hr)) id
      exact Edit.ends_attemptUpdate hattach htables.leads trivial
  · exact .pure trivial

/-- How a call of a string builder class is modelled, and whether it is. -/
inductive TextModel (s : CallSite) (config : Config) (p : Program) : Edit Bool → Prop where
  | none (hmodel : ¬ s.call.BuildsText config) : TextModel s config p (return false)
  | text {receiver : ValueSlot} (hmodel : s.call.BuildsText config) (hname : s.call.signature.methodName = "toString")
      (hreceiver : s.call.receiver = some receiver) :
      TextModel s config p (do s.modelToString p receiver; return true)
  | empty (hmodel : s.call.BuildsText config) (hname : s.call.signature.isConstructor)
      (harguments : s.call.arguments = []) : TextModel s config p (return true)
  | append {receiver argument : ValueSlot} (hmodel : s.call.BuildsText config)
      (hmethod : s.call.signature.methodName = "append" ∨ s.call.signature.isConstructor)
      (hreceiver : s.call.receiver = some receiver) (hargument : s.call.arguments.head? = some argument) :
      TextModel s config p (do
        s.modelAppend p receiver argument (if s.call.signature.methodName == "append" then s.call.result else .none)
        return true)

theorem textModel {config : Config} (hclass : config.isStringBuilderClass s.call.signature.className) (p : Program) :
    s.TextModel config p (s.modelStringBuilder p) := by
  unfold modelStringBuilder
  cases hreceiver : s.call.receiver with
  | none => exact .none (by simp [Invoke.BuildsText, hreceiver])
  | some receiver =>
      simp only
      split
      · rename_i hname
        exact .text (by simp [Invoke.BuildsText, hclass, hreceiver, hname]) hname hreceiver
      · rename_i hname
        split
        · rename_i hother
          simp only [Bool.and_eq_true, Bool.not_eq_true', beq_eq_false_iff_ne] at hother
          exact .none (by simp [Invoke.BuildsText, hname, hother])
        · rename_i hmethod
          have hmethod : s.call.signature.methodName = "append" ∨ s.call.signature.isConstructor := by
            simp only [Bool.and_eq_true, Bool.not_eq_true', beq_eq_false_iff_ne, not_and, Bool.not_eq_false] at hmethod
            by_cases happend : s.call.signature.methodName = "append"
            · exact .inl happend
            · exact .inr (hmethod happend)
          cases harguments : s.call.arguments with
          | nil =>
              cases hconstructor : s.call.signature.isConstructor with
              | true =>
                  have hmodel : s.call.BuildsText config := by simp [Invoke.BuildsText, hclass, hreceiver, hconstructor]
                  exact .empty hmodel hconstructor harguments
              | false => exact .none (by simp [Invoke.BuildsText, hname, hconstructor, harguments])
          | cons argument rest =>
              refine .append ⟨hclass, by simp [hreceiver], ?_⟩ hmethod hreceiver (by rw [harguments]; rfl)
              exact hmethod.elim (fun h => .inr (.inr ⟨h, by simp [harguments]⟩)) (.inr ∘ .inl)

theorem ends_modelStringBuilder (hg : g.Sound t) (hcall : s.here.NamesCall t g s.procedure s.call)
    (hclass : t.config.isStringBuilderClass s.call.signature.className) :
    (drawing t).Ends g (s.modelStringBuilder t.program) (fun built _ => built ↔ s.call.BuildsText t.config) E := by
  have hmodel := s.textModel hclass t.program
  generalize s.modelStringBuilder t.program = x at hmodel ⊢
  cases hmodel with
  | none hmodel => exact .pure (by simp [hmodel])
  | empty hmodel => exact .pure (by simp [hmodel])
  | text hmodel hname hreceiver =>
      exact .bind (ends_modelToString hg hcall hclass hname hreceiver) fun _ _ _ _ => .pure (by simp [hmodel])
  | append hmodel hmethod hreceiver hargument =>
      refine .bind (ends_modelAppend hg hcall hclass hmethod hreceiver hargument ?_) fun _ _ _ _ =>
        .pure (by simp [hmodel])
      intro slot hslot
      split at hslot
      · rename_i happend
        exact ⟨hslot, by simpa using happend⟩
      · cases hslot

/-! ## Rules -/

theorem ends_applyRule (hg : g.Sound t) (hcall : s.here.NamesCall t g s.procedure s.call)
    (hmodel : ¬ s.call.BuildsText t.config) {set : PropagationRuleSet}
    (hset : t.rules.propagation? s.call.signature = some set) {rule : PropagationRule} (hrule : rule ∈ set.rules)
    (herror : ∀ index, index = rule.left ∨ index = rule.right → s.call.operand index = none →
      E (.unresolvedOperand s.call.signature index s.call.uses.length)) :
    (drawing t).Ends g (s.applyRule t.program rule) (fun _ _ => s.call.Fits rule) E := by
  unfold applyRule
  refine .bind (ends_operandNode (herror _ (.inl rfl))) fun n g₁ hl₁ hleft => ?_
  refine .bind (ends_operandNode (herror _ (.inr rfl))) fun m g₂ hl₂ hright => ?_
  obtain ⟨left, hleft, hn⟩ := hleft
  obtain ⟨right, hright, hm⟩ := hright
  have hg₂ := hl₂.2 (hl₁.2 hg)
  have hcall := (hcall.mono hl₁.1).mono hl₂.1
  have hn := hl₂.1.values _ _ _ hn
  have hfits : s.call.Fits rule := by
    rintro index (rfl | rfl)
    · simp [hleft]
    · simp [hright]
  have hintoRight : ∀ g₃, (drawing t).leads g₂ g₃ → (drawing t).Ends g₃
      (if rule.operator.flowsIntoRight then Edit.relate m .ge n s.path else pure ())
      (fun _ _ => s.call.Fits rule) E := by
    intro g₃ hl₃
    split
    · rename_i hflows
      have hn := hl₃.1.values _ _ _ hn
      have hm := hl₃.1.values _ _ _ hm
      refine (Edit.ends_relateValues (hl₃.2 hg₂) hm hn ?_).imp fun _ _ _ _ => hfits
      exact .rule (hcall.mono hl₃.1) hmodel hset hrule (.inr ⟨hflows, rfl, rfl⟩) hright hleft hm hn
    · exact .pure hfits
  dsimp only
  split
  · rename_i hflows
    refine .bind (Edit.ends_relateValues hg₂ hn hm ?_) fun _ g₃ hl₃ _ => hintoRight g₃ hl₃
    exact .rule hcall hmodel hset hrule (.inl ⟨hflows, rfl, rfl⟩) hleft hright hn hm
  · exact hintoRight g₂ ((drawing t).refl g₂)

theorem ends_applySource (hg : g.Sound t) (hcall : s.here.NamesCall t g s.procedure s.call)
    (hmodel : ¬ s.call.BuildsText t.config) (hset : t.rules.propagation? s.call.signature = none)
    {source : SourceCorrelation} (hsource : t.rules.source? s.call.signature = some source) {slot : ValueSlot}
    (hresult : s.call.result = some slot) :
    (drawing t).Ends g (s.applySource t.program slot source) (fun _ _ => True) E := by
  refine .bind (ends_slotNode slot) fun n g₁ hl₁ hn => ?_
  refine .bind (Q := fun tag g' => ∃ k, g'.kind? tag = some (.standIn k source.tag))
    (Edit.ends_change (GraphTables.leads_standIn g₁ s.procedure source.tag)
      (GraphTables.kind?_standIn g₁ s.procedure source.tag)) ?_
  rintro m g₂ hl₂ ⟨k, hm⟩
  have hg₂ := hl₂.2 (hl₁.2 hg)
  have hn := hl₂.1.values _ _ _ hn
  have hthere : (g₂.node? m).isSome := (GraphTables.kind?_isSome g₂ m).symm.trans (Option.isSome_of_eq_some hm)
  refine (Edit.ends_relate hg₂ (hg₂.node?_isSome hn) hthere ?_).imp fun _ _ _ _ => trivial
  exact .source ((hcall.mono hl₁.1).mono hl₂.1) hmodel hset hsource hresult hn hm

/-! ## The general assumption -/

/-- Sorted arguments are the nodes of some values: free ones of values that are not known, and constants. -/
structure Arguments.AreOf (t : Setting) (q : ProcedureId) (slots : List ValueSlot) (g : FlowGraph) (a : Arguments) :
    Prop where
  free : ∀ n ∈ a.free, ∃ slot ∈ slots, t.program.literal? q slot = none ∧ g.valueNode? q slot = some n
  constants : ∀ n ∈ a.constants,
    ∃ slot ∈ slots, (t.program.literal? q slot).isSome ∧ g.valueNode? q slot = some n

variable {q : ProcedureId} {slots : List ValueSlot} {a : Arguments}

theorem Arguments.AreOf.mono {g' : FlowGraph} (h : a.AreOf t q slots g) (hext : g.Extends g') :
    a.AreOf t q slots g' where
  free n hn := by
    obtain ⟨slot, hslot, hopen, hn⟩ := h.free n hn
    exact ⟨slot, hslot, hopen, hext.values _ _ _ hn⟩
  constants n hn := by
    obtain ⟨slot, hslot, hconstant, hn⟩ := h.constants n hn
    exact ⟨slot, hslot, hconstant, hext.values _ _ _ hn⟩

theorem isConstant_value (hg : g.Sound t) {slot : ValueSlot} {n : NodeId} (hn : g.valueNode? q slot = some n) :
    (g.node? n).any Node.isConstant = (t.program.literal? q slot).isSome := by
  obtain ⟨v, hv, hkind⟩ := hg.values q slot n hn
  simp [hv, Node.isConstant, Node.literal?, hkind, NodeKind.literal?]

theorem ends_sortArguments (hg : g.Sound t) {rest : List ValueSlot} (hrest : rest ⊆ slots)
    (ha : a.AreOf t s.procedure slots g) :
    (drawing t).Ends g (s.sortArguments t.program rest a)
      (fun arguments g' => arguments.AreOf t s.procedure slots g') E := by
  induction rest generalizing g a with
  | nil => exact .pure ha
  | cons slot rest ih =>
      obtain ⟨hslot, hrest⟩ := List.cons_subset.mp hrest
      refine .bind (ends_slotNode slot) fun n g₁ hl₁ hn => .get_bind ?_
      have hg₁ := hl₁.2 hg
      have ha := ha.mono hl₁.1
      rw [isConstant_value hg₁ hn]
      split
      · rename_i hconstant
        refine ih hg₁ hrest { ha with constants := fun m hm => ?_ }
        rcases mem_addOnce.mp hm with hm | rfl
        · exact ha.constants m hm
        · exact ⟨slot, hslot, hconstant, hn⟩
      · rename_i hopen
        refine ih hg₁ hrest { ha with free := fun m hm => ?_ }
        rcases mem_addOnce.mp hm with hm | rfl
        · exact ha.free m hm
        · exact ⟨slot, hslot, by simpa using hopen, hn⟩

theorem ends_optionalNode (slot : Option ValueSlot) :
    (drawing t).Ends g (s.optionalNode t.program slot)
      (fun r g' => ∀ n, r = some n → ∃ a, slot = some a ∧ g'.valueNode? s.procedure a = some n) E := by
  cases slot with
  | none => exact .pure nofun
  | some slot =>
      simp only [optionalNode, ← bind_pure_comp]
      refine .bind (ends_slotNode slot) fun n g₁ hl₁ hn => .pure ?_
      rintro _ ⟨⟩
      exact ⟨slot, rfl, hn⟩

theorem ends_applyHeuristic (hg : g.Sound t) (hcall : s.here.NamesCall t g s.procedure s.call)
    (hassumes : t.Assumes s.call) :
    (drawing t).Ends g (s.applyHeuristic t.program t.config) (fun _ _ => True) E := by
  unfold applyHeuristic
  refine .bind (ends_optionalNode _) fun receiver g₁ hl₁ hreceiver => ?_
  refine .bind (ends_optionalNode _) fun result g₂ hl₂ hresult => ?_
  have hg₂ := hl₂.2 (hl₁.2 hg)
  have hnone : Arguments.AreOf t s.procedure s.call.arguments g₂ {} := ⟨nofun, nofun⟩
  refine .bind (ends_sortArguments hg₂ (List.Subset.refl _) hnone) fun arguments g₃ hl₃ harguments => ?_
  have hg₃ := hl₃.2 hg₂
  have hcall := ((hcall.mono hl₁.1).mono hl₂.1).mono hl₃.1
  have hchanged : ∀ n, (if s.call.isStatic then result else receiver) = some n →
      ∃ a, s.call.changed = some a ∧ g₃.valueNode? s.procedure a = some n := by
    intro n hn
    unfold Invoke.changed
    split at hn
    · obtain ⟨a, ha, hn⟩ := hresult n hn
      exact ⟨a, by rw [if_pos ‹_›, ha], hl₃.1.values _ _ _ hn⟩
    · obtain ⟨a, ha, hn⟩ := hreceiver n hn
      exact ⟨a, by rw [if_neg ‹_›, ha], hl₃.1.values _ _ _ (hl₂.1.values _ _ _ hn)⟩
  have htrivial : ∀ (_ : NodeId) g g', (drawing t).leads g g' → True → True := fun _ _ _ _ h => h
  refine .bind (.forM htrivial fun n hn g₄ hl₄ => ?_) fun _ g₄ hl₄ _ => ?_
  · refine (Course.Ends.forM htrivial fun m hm g₅ hl₅ => ?_).imp fun _ _ _ _ => trivial
    have hl := (drawing t).trans hl₄ hl₅
    obtain ⟨a, ha, hopen, hn⟩ := (harguments.mono hl.1).free n hn
    obtain ⟨b, hb, hconstant, hm⟩ := (harguments.mono hl.1).constants m hm
    refine (Edit.ends_relateValues (hl.2 hg₃) hn hm ?_).imp fun _ _ _ _ => trivial
    exact .supplied (hcall.mono hl.1) hassumes ha hopen hb hconstant hn hm
  · split
    · exact .pure trivial
    · rename_i n hn
      obtain ⟨a, ha, hn⟩ := hchanged n hn
      refine (Course.Ends.forM htrivial fun m hm g₅ hl₅ => ?_).imp fun _ _ _ _ => trivial
      have hl := (drawing t).trans hl₄ hl₅
      have hargument : ∃ b ∈ s.call.arguments, g₅.valueNode? s.procedure b = some m := by
        split at hm
        · obtain ⟨b, hb, _, hm⟩ := (harguments.mono hl.1).constants m hm
          exact ⟨b, hb, hm⟩
        · obtain ⟨b, hb, _, hm⟩ := (harguments.mono hl.1).free m hm
          exact ⟨b, hb, hm⟩
      obtain ⟨b, hb, hm⟩ := hargument
      have hn := hl.1.values _ _ _ hn
      refine (Edit.ends_relateValues (hl.2 hg₃) hn hm ?_).imp fun _ _ _ _ => trivial
      exact .assumed (hcall.mono hl.1) hassumes ha hb hn hm

/-! ## Calls without a body -/

theorem ends_modelByRules (hg : g.Sound t) (hcall : s.here.NamesCall t g s.procedure s.call)
    (hapi : s.call.library ∨ t.program.successors s.here.statement = []) (hmodel : ¬ s.call.BuildsText t.config) :
    (drawing t).Ends g (s.modelByRules t)
      (fun _ _ => ∀ set, t.rules.propagation? s.call.signature = some set → ∀ rule ∈ set.rules, s.call.Fits rule)
      (t.Refuses s.here.statement s.call) := by
  unfold modelByRules
  split
  · rename_i set hset
    refine .bind (.forM (Q := fun rule _ => s.call.Fits rule) (fun _ _ _ _ h => h) fun rule hrule g₁ hl₁ => ?_)
      fun _ _ _ hall => .pure ?_
    · refine ends_applyRule (hl₁.2 hg) (hcall.mono hl₁.1) hmodel hset hrule fun index hindex hnone => ?_
      exact ⟨index, .rule set rule hapi hmodel hset hrule hindex hnone, rfl⟩
    · intro set' hset'
      cases hset.symm.trans hset'
      exact hall
  · rename_i hnone
    have hvacuous : ∀ set, t.rules.propagation? s.call.signature = some set →
        ∀ rule ∈ set.rules, s.call.Fits rule := by
      intro set hset
      rw [hnone] at hset
      cases hset
    split
    · rename_i source slot hsource hresult
      exact .bind (ends_applySource hg hcall hmodel hnone hsource hresult) fun _ _ _ _ => .pure hvacuous
    · rename_i hother
      have hassumes : t.Assumes s.call := by
        refine ⟨hmodel, hnone, ?_⟩
        cases hsource : t.rules.source? s.call.signature with
        | none => exact .inl rfl
        | some source =>
            cases hresult : s.call.result with
            | none => exact .inr rfl
            | some slot => exact absurd hresult (hother source slot hsource)
      exact .bind (ends_applyHeuristic hg hcall hassumes) fun _ _ _ _ => .pure hvacuous

/-- Modelling a call fails only if it lacks an operand that a rule names, and always then. -/
theorem ends_model (hg : g.Sound t) (hcall : s.here.NamesCall t g s.procedure s.call) :
    (drawing t).Ends g (s.model t)
      (fun _ _ => ¬ s.call.BuildsText t.config → ∀ set, t.rules.propagation? s.call.signature = some set →
        ∀ rule ∈ set.rules, s.call.Fits rule)
      (t.Refuses s.here.statement s.call) := by
  have hapi : s.call.library ∨ t.program.successors s.here.statement = [] := by
    simpa [Build.isApiCall] using hcall.api
  unfold model
  dsimp only
  split
  · rename_i hclass
    refine .bind (ends_modelStringBuilder hg hcall hclass) fun built g₁ hl₁ hbuilt => ?_
    split
    · rename_i h
      exact .pure fun hmodel => absurd (hbuilt.mp h) hmodel
    · rename_i h
      exact (ends_modelByRules (hl₁.2 hg) (hcall.mono hl₁.1) hapi (h ∘ hbuilt.mpr)).imp fun _ _ _ hall _ => hall
  · rename_i hclass
    have hmodel : ¬ s.call.BuildsText t.config := fun h => hclass h.1
    exact (ends_modelByRules hg hcall hapi hmodel).imp fun _ _ _ hall _ => hall

/-! ## Sinks -/

theorem ends_markOperands (hg : g.Sound t) {indices : List Int} {acc : List NodeId}
    (herror : ∀ index ∈ indices, s.call.operand index = none →
      E (.unresolvedOperand s.call.signature index s.call.uses.length))
    (hacc : ∀ n ∈ acc, (g.node? n).any Node.special) :
    (drawing t).Ends g (s.markOperands t.program indices acc)
      (fun ns g' => acc ⊆ ns ∧ (∀ n ∈ ns, (g'.node? n).any Node.special) ∧
        ∀ index ∈ indices, ∃ slot, s.call.operand index = some slot ∧
          ∃ n ∈ ns, g'.valueNode? s.procedure slot = some n) E := by
  induction indices generalizing g acc with
  | nil => exact .pure ⟨List.Subset.refl _, hacc, nofun⟩
  | cons index indices ih =>
      refine .bind (ends_operandNode (herror index List.mem_cons_self)) fun n g₁ hl₁ hn => ?_
      obtain ⟨slot, hslot, hn⟩ := hn
      have hg₁ := hl₁.2 hg
      obtain ⟨g', hmark, htables, hspecial⟩ := markSpecial_eq_ok (hg₁.node?_isSome hn)
      refine .bind (Q := fun _ g₂ => (g₂.node? n).any Node.special)
        (Edit.ends_attemptUpdate hmark htables.leads hspecial) fun _ g₂ hl₂ hspecial => ?_
      have hacc₂ : ∀ m ∈ addOnce acc n, (g₂.node? m).any Node.special := by
        intro m hm
        rcases mem_addOnce.mp hm with hm | rfl
        · exact hl₂.1.special (hl₁.1.special (hacc m hm))
        · exact hspecial
      refine (ih (hl₂.2 hg₁) (fun i hi => herror i (List.mem_cons_of_mem _ hi)) hacc₂).imp ?_
      rintro ns g₃ hl₃ ⟨hsub, hmarked, hall⟩
      refine ⟨fun m hm => hsub (mem_addOnce.mpr (.inl hm)), hmarked, fun i hi => ?_⟩
      rcases List.mem_cons.mp hi with rfl | hi
      · exact ⟨slot, hslot, n, hsub (mem_addOnce.mpr (.inr rfl)), hl₃.1.values _ _ _ (hl₂.1.values _ _ _ hn)⟩
      · exact hall i hi

/-- Checking a call for a sink fails only if it lacks an operand that the sink definition names, and always then. A
call of a sink is listed afterwards. -/
theorem ends_checkSink (hg : g.Sound t)
    (hcall : t.program.statement? s.here.statement = some ⟨s.here.statement, s.procedure, .normal (.invoke s.call)⟩) :
    (drawing t).Ends g (s.checkSink t)
      (fun _ g' => ∀ sink, t.rules.sink? s.call.signature = some sink →
        (∀ index ∈ sink.arguments, s.call.operand index ≠ none) ∧
          ∃ site ∈ g'.sinks, site.procedure = s.procedure ∧ site.statement = s.here.statement)
      (t.Refuses s.here.statement s.call) := by
  unfold checkSink
  split
  · rename_i hnone
    refine .pure fun sink hsink => ?_
    rw [hnone] at hsink
    cases hsink
  · rename_i sink hsink
    refine .bind (ends_markOperands hg (fun index hindex hnone => ?_) nofun) fun arguments g₁ hl₁ hmarked => ?_
    · exact ⟨index, .sink sink hsink hindex hnone, rfl⟩
    · obtain ⟨_, hspecial, hoperands⟩ := hmarked
      refine Edit.ends_change (GraphTables.leads_registerSink ⟨rfl, hspecial, ?_⟩) ?_
      · intro statement call sink' hst hinvoke hsink' index hindex slot hslot
        cases hcall.symm.trans hst
        cases hinvoke
        cases hsink.symm.trans hsink'
        obtain ⟨slot', hslot', n, hn, hv⟩ := hoperands index hindex
        cases hslot.symm.trans hslot'
        exact ⟨n, hn, hv⟩
      · intro sink' hsink'
        cases hsink.symm.trans hsink'
        refine ⟨fun index hindex => ?_, GraphTables.exists_registerSink g₁.inStep _⟩
        obtain ⟨slot, hslot, _⟩ := hoperands index hindex
        simp [hslot]

end CallSite

end SinkFlow
