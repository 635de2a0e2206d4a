import Mathlib.Data.Set.Card
import SinkFlow.Proofs.Build.Effects
import SinkFlow.Proofs.Build.Log
import SinkFlow.Proofs.Build.Outcome

/-!
What is appended to string builders. Every time a call that appends is handled, one element is added to one chain, and
nothing else adds any. So there are as many elements as there are such calls, run by run: a call that several runs come
to is recorded once for each of them.
-/

namespace SinkFlow

/-! ## Calls that append -/

/-- The value that a call appends to its string builder. -/
def Invoke.appended? (config : Config) (call : Invoke) : Option ValueSlot :=
  if config.isStringBuilderClass call.signature.className && call.receiver.isSome &&
      (call.signature.methodName == "append" || call.signature.isConstructor) then
    call.arguments.head?
  else none

theorem Invoke.appended?_eq_none {config : Config} {call : Invoke} (h : ¬ call.BuildsText config) :
    call.appended? config = none := by
  unfold Invoke.appended?
  split
  · rename_i hmodel
    simp only [Bool.and_eq_true, Bool.or_eq_true, beq_iff_eq] at hmodel
    obtain ⟨⟨hclass, hreceiver⟩, happend | hconstructor⟩ := hmodel
    · cases harguments : call.arguments with
      | nil => rfl
      | cons argument rest => exact absurd ⟨hclass, hreceiver, .inr (.inr ⟨happend, by simp [harguments]⟩)⟩ h
    · exact absurd ⟨hclass, hreceiver, .inr (.inl hconstructor)⟩ h
  · rfl

/-- The value that a statement appends to a string builder, if it is a call without a body that does so. -/
def Setting.appended? (t : Setting) (id : StatementId) : Option (ProcedureId × ValueSlot) :=
  match t.program.statement? id with
  | some ⟨_, q, .normal (.invoke call)⟩ =>
    if Build.isApiCall t.program id call then (call.appended? t.config).map (q, ·) else none
  | _ => none

theorem Setting.isSome_of_appended? {t : Setting} {id : StatementId} (h : (t.appended? id).isSome) :
    (t.program.statement? id).isSome := by
  cases hstatement : t.program.statement? id with
  | none => simp [Setting.appended?, hstatement] at h
  | some statement => rfl

/-- What appending a value adds to a chain: its text if it is known, else its node and where it was appended. -/
def Program.element (p : Program) (q : ProcedureId) (slot : ValueSlot) (n : NodeId) (here : StatementRef) :
    AppendElement :=
  match p.literal? q slot with
  | some l => .literal l.render
  | none => .operand n here

/-- What a statement adds to a chain of a graph. -/
def Setting.element? (t : Setting) (g : GraphTables) (id : StatementId) : Option AppendElement :=
  (t.appended? id).bind fun a => (g.valueNode? a.1 a.2).map fun n => t.program.element a.1 a.2 n ⟨g.entrypoint, id⟩

namespace GraphTables

variable {g g' : GraphTables} {n : NodeId} {t : Setting} {p : Program}

/-! ## Chains -/

/-- All that was appended, chain by chain. -/
def appended (g : GraphTables) : List AppendElement := g.chains.toList.flatMap AppendChain.elements

theorem appended_congr (h : g'.chains = g.chains) : g'.appended = g.appended := by
  rw [appended, h, appended]

theorem perm_flatMap_push {chains : List AppendChain} {id : Nat} (h : id < chains.length) (e : AppendElement) :
    ((chains.modify id (·.push e)).flatMap AppendChain.elements).Perm (e :: chains.flatMap AppendChain.elements) := by
  induction chains generalizing id with
  | nil => cases h
  | cons chain chains ih =>
      cases id with
      | zero =>
          simp only [List.modify_zero_cons, List.flatMap_cons, AppendChain.push, List.append_assoc,
            List.singleton_append]
          exact List.perm_middle
      | succ id =>
          simp only [List.modify_succ_cons, List.flatMap_cons]
          exact ((ih (Nat.lt_of_succ_lt_succ h)).append_left _).trans List.perm_middle

theorem perm_pushElement {id : ChainId} (h : id < g.chains.size) (e : AppendElement) :
    (g.pushElement id e).appended.Perm (e :: g.appended) := by
  simp only [appended, pushElement, Array.toList_modify]
  exact perm_flatMap_push (by simpa using h) e

/-- A graph in which values have the literals that the program gives them, and nodes are on chains that are there. -/
structure Traceable (p : Program) (g : GraphTables) : Prop where
  wellFormed : g.WellFormed
  literals : ∀ n q slot l, g.kind? n = some (.value q slot l) → l = p.literal? q slot
  attached : ∀ n, ∀ id ∈ g.chainsAt n, id < g.chains.size

/-- The course of a build as far as chains are concerned. -/
def tracing (p : Program) : Course GraphTables where
  leads g g' := Extends g g' ∧ (g.Traceable p → g'.Traceable p)
  refl g := ⟨.refl g, id⟩
  trans h h' := ⟨h.1.trans h'.1, h'.2 ∘ h.2⟩

theorem tracing_perform {op : Operation} (hop : op.Builds t.program) (hg : g.perform op = .ok g')
    (hattached : (∀ n, ∀ id ∈ g.chainsAt n, id < g.chains.size) → ∀ n, ∀ id ∈ g'.chainsAt n, id < g'.chains.size) :
    (tracing t.program).leads g g' := by
  refine ⟨extends_perform hop hg, fun h => ⟨(living_perform hg).2 h.wellFormed, ?_, hattached h.attached⟩⟩
  intro n q slot l hn
  rcases kind?_perform hop hg hn with hn | hmakes
  · exact h.literals n q slot l hn
  · exact literal_of_makes hop hmakes

theorem attached_attachChain {id : ChainId} (hg : g.attachChain n id = .ok g') {m : NodeId} {k : ChainId}
    (hk : k ∈ g'.chainsAt m) : k ∈ g.chainsAt m ∨ k = id := by
  obtain ⟨_, rfl⟩ := attachChain_eq_ok_iff.mp hg
  rw [chainsAt, record?_editRecord] at hk
  split at hk
  · cases hr : g.record? m with
    | none => exact .inr (by simpa [hr, NodeRecord.attach] using hk)
    | some r => simpa [chainsAt, hr, NodeRecord.attach, mem_addOnce] using hk
  · exact .inl hk

theorem tracing_attachChain {id : ChainId} (hid : id < g.chains.size) (hg : g.attachChain n id = .ok g') :
    (tracing t.program).leads g g' ∧ g'.chains = g.chains := by
  have hchains : g'.chains = g.chains := by
    rw [(attachChain_eq_ok_iff.mp hg).2]
    rfl
  refine ⟨tracing_perform (.inr (.inr (.inl (.attach n id)))) hg fun h m k hk => ?_, hchains⟩
  rw [hchains]
  rcases attached_attachChain hg hk with hk | rfl
  · exact h m k hk
  · exact hid

/-- Looking for the chain of a node gives one that is there, and appends nothing. -/
theorem tracing_chainFor {id : ChainId} (h : g.Traceable t.program) (hg : g.chainFor n = .ok (id, g')) :
    (tracing t.program).leads g g' ∧ id < g'.chains.size ∧ g'.appended = g.appended := by
  rcases chainFor_cases hg with ⟨hlast, rfl⟩ | ⟨rfl, hattach⟩
  · exact ⟨(tracing _).refl _, h.attached n id (List.mem_of_getLast? hlast), rfl⟩
  · have hpush : (tracing t.program).leads g { g with chains := g.chains.push {} } := by
      refine ⟨(SameTables.pushChain g).extended, fun h => ⟨{ h.wellFormed with }, h.literals, ?_⟩⟩
      intro m k hk
      rw [Array.size_push]
      exact Nat.lt_succ_of_lt (h.attached m k hk)
    obtain ⟨hl, hchains⟩ := tracing_attachChain (t := t) (by simp) hattach
    refine ⟨(tracing _).trans hpush hl, by simp [hchains], ?_⟩
    simp [appended, hchains]

/-- The course of operations that leave the chains alone. -/
def unchained (p : Program) : Course GraphTables where
  leads g g' := (tracing p).leads g g' ∧ g'.chains = g.chains
  refl g := ⟨(tracing p).refl g, rfl⟩
  trans h h' := ⟨(tracing p).trans h.1 h'.1, h'.2.trans h.2⟩

theorem unchained_perform {op : Operation} (hop : op.Draws t.program ∨ op.Views ∨ op.Marks)
    (hg : g.perform op = .ok g') : (unchained t.program).leads g g' := by
  have hbuilds : op.Builds t.program := hop.imp_right fun hop => hop.imp_right .inr
  have hchains := chains_perform hop hg
  refine ⟨tracing_perform hbuilds hg fun h n id hid => ?_, hchains⟩
  rw [chainsAt_perform hop hg] at hid
  rw [hchains]
  exact h n id hid

/-- A value of a procedure was appended to one of the chains. -/
def Gains (t : Setting) (here : StatementRef) (q : ProcedureId) (slot : ValueSlot) (g g' : GraphTables) : Prop :=
  ∃ n, g'.valueNode? q slot = some n ∧ g'.appended.Perm (t.program.element q slot n here :: g.appended)

/-- At most one value was appended, this one, to one of the chains. -/
def GainsOnly (t : Setting) (here : StatementRef) (a : Option (ProcedureId × ValueSlot)) (g g' : GraphTables) : Prop :=
  match a with
  | some (q, slot) => g.Gains t here q slot g'
  | none => g'.appended = g.appended

end GraphTables

/-- The course of a build of a flow graph as far as chains are concerned. -/
def FlowGraph.tracing (p : Program) : Course FlowGraph := (GraphTables.tracing p).along FlowGraph.toGraphTables

open GraphTables

variable {t : Setting} {g : FlowGraph} {α : Type}

theorem Edit.ends_unchained {x : Edit α} (h : Edit.Performs (fun op => op.Draws t.program ∨ op.Views ∨ op.Marks) x) :
    (FlowGraph.tracing t.program).Ends g x (fun _ g' => g'.chains = g.chains) fun _ => True := by
  have hends := h.ends (C := unchained t.program) (fun op hop g g' hg => unchained_perform hop hg) g
  exact hends.mono (fun _ hl => hl.1) (fun _ _ hl _ => hl.2) fun _ he => he

theorem Program.ends_slotNode_traced (q : ProcedureId) (slot : ValueSlot) :
    (FlowGraph.tracing t.program).Ends g (t.program.slotNode q slot)
      (fun n g' => g'.valueNode? q slot = some n ∧ g'.chains = g.chains) fun _ => True := by
  have hvalue := unchained_perform (t := t) (g := g) (.inl (.value q slot)) rfl
  exact Edit.ends_change hvalue.1 ⟨valueNode?_valueNode g q slot _, hvalue.2⟩

namespace CallSite

variable {s : CallSite}

/-- The element that is appended for a value is that of the value. -/
theorem appended_eq {q : ProcedureId} {slot : ValueSlot} {n : NodeId} (hg : g.Traceable t.program)
    (hn : g.valueNode? q slot = some n) : s.appended g n = t.program.element q slot n s.here := by
  obtain ⟨l, hkind⟩ := hg.wellFormed.found q slot n hn
  obtain ⟨v, hv, hkind⟩ := Option.map_eq_some_iff.mp hkind
  have hl := hg.literals n q slot l (by simp [kind?, hv, hkind])
  have hliteral : (g.node? n).bind Node.literal? = t.program.literal? q slot := by
    simp [hv, Node.literal?, hkind, NodeKind.literal?, hl]
  cases hfound : t.program.literal? q slot with
  | none => simp [appended, Program.element, hliteral, hfound]
  | some l => simp [appended, Program.element, hliteral, hfound]

/-- Modelling an append adds one element to one chain. -/
theorem ends_modelAppend_traced (hg : g.Traceable t.program) (receiver argument : ValueSlot)
    (result : Option ValueSlot) :
    (FlowGraph.tracing t.program).Ends g (s.modelAppend t.program receiver argument result)
      (fun _ g' => g.Gains t s.here s.procedure argument g') fun _ => True := by
  unfold modelAppend
  refine .bind (Program.ends_slotNode_traced _ _) ?_
  rintro n g₁ hl₁ ⟨_, h₁⟩
  refine .bind (Program.ends_slotNode_traced _ _) ?_
  rintro m g₂ hl₂ ⟨hm, h₂⟩
  refine .bind (Edit.ends_unchained ((Edit.performs_relate _ _ _ _ _).mono fun _ => .inl)) fun _ g₃ hl₃ h₃ => ?_
  have hg₃ := hl₃.2 (hl₂.2 (hl₁.2 hg))
  refine .bind (Q := fun id (g' : FlowGraph) => id < g'.chains.size ∧ g'.appended = g₃.appended)
    (Edit.ends_of_attempt fun id g' hchain => tracing_chainFor hg₃ (FlowGraph.attempted_eq_ok_iff.mp hchain)) ?_
  rintro id g₄ hl₄ ⟨hid, h₄⟩
  have hm := hl₄.1.values _ _ _ (hl₃.1.values _ _ _ hm)
  have h₄ : g₄.appended = g.appended := h₄.trans (appended_congr (h₃.trans (h₂.trans h₁)))
  have hsize : (g₄.pushElement id (s.appended g₄ m)).chains.size = g₄.chains.size := Array.size_modify ..
  have hpush : (tracing t.program).leads g₄ (g₄.pushElement id (s.appended g₄ m)) :=
    tracing_perform (.inr (.inr (.inl (.push id _)))) rfl fun h k c hc => hsize ▸ h k c hc
  refine .bind (Q := fun _ g' => id < g'.chains.size ∧ g'.appended.Perm (s.appended g₄ m :: g₄.appended))
    (Edit.ends_change hpush ⟨hsize ▸ hid, perm_pushElement hid _⟩) ?_
  rintro _ g₅ hl₅ ⟨hid, h₅⟩
  rw [appended_eq (hl₄.2 hg₃) hm, h₄] at h₅
  have hgains : ∀ g', (tracing t.program).leads g₅ g' → g'.chains = g₅.chains →
      g.Gains t s.here s.procedure argument g' := by
    intro g' hl h'
    refine ⟨m, hl.1.values _ _ _ (hl₅.1.values _ _ _ hm), ?_⟩
    rwa [appended_congr h']
  split
  · refine .bind (Program.ends_slotNode_traced _ _) ?_
    rintro r g₆ hl₆ ⟨_, h₆⟩
    refine .bind (Edit.ends_unchained ((Edit.performs_relate _ _ _ _ _).mono fun _ => .inl)) fun _ g₇ hl₇ h₇ => ?_
    refine Edit.ends_of_attempt fun _ g' hattach => ?_
    obtain ⟨_, hattach, heq⟩ := exists_of_map_eq_ok hattach
    cases heq
    have h₇ : g₇.chains = g₅.chains := h₇.trans h₆
    obtain ⟨hl, hchains⟩ := tracing_attachChain (t := t) (h₇ ▸ hid) (FlowGraph.updated_eq_ok_iff.mp hattach)
    exact ⟨hl, hgains g' ((tracing _).trans ((tracing _).trans hl₆ hl₇) hl) (hchains.trans h₇)⟩
  · exact .pure (hgains g₅ ((tracing _).refl _) rfl)

/-- Modelling a call of a string builder adds an element if the call appends. If it is not modelled, it does not. -/
theorem ends_modelStringBuilder_traced (hg : g.Traceable t.program)
    (hclass : t.config.isStringBuilderClass s.call.signature.className) :
    (FlowGraph.tracing t.program).Ends g (s.modelStringBuilder t.program)
      (fun built g' => g.GainsOnly t s.here ((s.call.appended? t.config).map (s.procedure, ·)) g' ∧
        (built = false → s.call.appended? t.config = none)) fun _ => True := by
  have hmodel := s.textModel hclass t.program
  generalize s.modelStringBuilder t.program = x at hmodel ⊢
  cases hmodel with
  | none hmodel =>
      have hnone := Invoke.appended?_eq_none hmodel
      rw [hnone]
      exact .pure ⟨rfl, fun _ => rfl⟩
  | @text receiver hmodel hname hreceiver =>
      have hnone : s.call.appended? t.config = none := by
        simp [Invoke.appended?, hname, MethodSignature.isConstructor]
      rw [hnone]
      have hperforms := (s.performs_modelToString t.program receiver).mono (B := fun op =>
        op.Draws t.program ∨ op.Views ∨ op.Marks) fun _ => .inl
      refine .bind (Edit.ends_unchained hperforms) fun _ g₁ _ h₁ => ?_
      exact .pure ⟨appended_congr h₁, fun _ => rfl⟩
  | empty hmodel hname harguments =>
      have hnone : s.call.appended? t.config = none := by simp [Invoke.appended?, harguments]
      rw [hnone]
      exact .pure ⟨rfl, fun _ => rfl⟩
  | @append receiver argument hmodel hmethod hreceiver hargument =>
      have happended : s.call.appended? t.config = some argument := by
        simp only [Invoke.appended?, hclass, hreceiver, hargument, Option.isSome_some, Bool.and_true, Bool.true_and]
        rw [if_pos (by simpa using hmethod)]
      rw [happended]
      exact .bind (ends_modelAppend_traced hg receiver argument _) fun _ g₁ _ hgains => .pure ⟨hgains, nofun⟩

theorem ends_modelByRules_traced :
    (FlowGraph.tracing t.program).Ends g (s.modelByRules t) (fun _ g' => g'.chains = g.chains) fun _ => True :=
  Edit.ends_unchained ((s.performs_modelByRules t).mono fun _ => .inl)

/-- Modelling a call adds an element if the call appends. -/
theorem ends_model_traced (hg : g.Traceable t.program) :
    (FlowGraph.tracing t.program).Ends g (s.model t)
      (fun _ g' => g.GainsOnly t s.here ((s.call.appended? t.config).map (s.procedure, ·)) g') fun _ => True := by
  have hrest : ∀ g₁ : FlowGraph, g₁.appended = g.appended → s.call.appended? t.config = none →
      (FlowGraph.tracing t.program).Ends g₁ (s.modelByRules t)
        (fun _ g' => g.GainsOnly t s.here ((s.call.appended? t.config).map (s.procedure, ·)) g') fun _ => True := by
    intro g₁ h₁ hnone
    refine ends_modelByRules_traced.imp fun _ g' _ h' => ?_
    rw [hnone]
    exact (appended_congr h').trans h₁
  unfold model
  dsimp only
  split
  · rename_i hclass
    refine .bind (ends_modelStringBuilder_traced hg hclass) fun built g₁ hl₁ ⟨hgains, hbuilt⟩ => ?_
    split
    · exact .pure hgains
    · rename_i hnot
      have hnone := hbuilt (by simpa using hnot)
      rw [hnone] at hgains
      exact hrest g₁ hgains hnone
  · rename_i hclass
    exact hrest g rfl (by simp [Invoke.appended?, hclass])

end CallSite

/-! ## Statements -/

namespace Build

variable {s s' : BuildState} {id : StatementId} {statement : Statement}

theorem ends_visitCall_traced (site : CallSite) (hg : s.graph.Traceable t.program) :
    ((FlowGraph.tracing t.program).along BuildState.graph).Ends s (visitCall t site)
      (fun _ s' => s.graph.GainsOnly t site.here
        (if isApiCall t.program site.here.statement site.call then
          (site.call.appended? t.config).map (site.procedure, ·) else none) s'.graph) fun _ => True := by
  unfold visitCall
  have hsink := (site.performs_checkSink t).mono (B := fun op =>
    op.Draws t.program ∨ op.Views ∨ op.Marks) fun _ => .imp_right .inr
  refine .bind (ends_edit_along (Edit.ends_unchained hsink)) fun _ s₁ hl₁ h₁ => ?_
  have hg₁ := hl₁.2 hg
  have hsame : s₁.graph.appended = s.graph.appended := appended_congr h₁
  split
  · refine .bind (ends_edit_along (CallSite.ends_model_traced hg₁)) fun model s₂ hl₂ hgains => ?_
    refine .modify ((tracing t.program).refl _) ?_
    unfold GainsOnly Gains at hgains ⊢
    rwa [hsame] at hgains
  · exact .pure hsame

/-- A statement adds an element if it is a call that appends. -/
theorem gains_visit (hstatement : t.program.statement? id = some statement) (hg : s.graph.Traceable t.program)
    (hrun : (visit t statement).run s = (.ok (), s')) :
    (tracing t.program).leads s.graph s'.graph ∧
      s.graph.GainsOnly t ⟨s.graph.entrypoint, id⟩ (t.appended? id) s'.graph := by
  obtain ⟨k, q, kind⟩ := statement
  have hid : k = id := t.program.id_of_statement? hstatement
  subst hid
  -- Statements that are no calls leave the chains alone.
  have hother : kind.Performs t.program = (fun op => op.Draws t.program ∨ op.Views) → t.appended? k = none →
      (tracing t.program).leads s.graph s'.graph ∧
        s.graph.GainsOnly t ⟨s.graph.entrypoint, k⟩ (t.appended? k) s'.graph := by
    intro hkind hnone
    have hperforms := performs_visit t ⟨k, q, kind⟩
    simp only [hkind] at hperforms
    have hl := hperforms.leads (C := unchained t.program)
      (fun op hop g g' hg => unchained_perform (hop.imp_right .inl) hg) s
    rw [hrun] at hl
    rw [hnone]
    exact ⟨hl.1, appended_congr hl.2⟩
  cases kind with
  | normal instruction =>
      cases instruction with
      | invoke call =>
          have hvisit : ((FlowGraph.tracing t.program).along BuildState.graph).Ends s
              (visit t ⟨k, q, .normal (.invoke call)⟩) _ _ :=
            .get_bind (ends_visitCall_traced ⟨q, ⟨s.graph.entrypoint, k⟩, call⟩ hg)
          obtain ⟨hl, hgains⟩ := hvisit.of_ok hrun
          rw [Setting.appended?, hstatement]
          exact ⟨hl, hgains⟩
      | _ => exact hother rfl (by rw [Setting.appended?, hstatement])
  | _ => exact hother rfl (by rw [Setting.appended?, hstatement])

end Build

/-! ## Whole builds -/

namespace FlowGraph

open GraphTables

variable {g g' : FlowGraph} {t : Setting}

/-- What was appended are the elements of the statements that were handled, each as often as its statement was. -/
structure Recorded (t : Setting) (log : List StatementId) (g : FlowGraph) : Prop where
  traceable : g.Traceable t.program
  elements : g.appended.Perm (log.filterMap (t.element? g))
  known : ∀ id ∈ log, (t.element? g id).isSome = (t.appended? id).isSome

theorem element?_of_extends {id : StatementId} (hext : Extends g g')
    (hknown : (t.element? g id).isSome = (t.appended? id).isSome) : t.element? g' id = t.element? g id := by
  unfold Setting.element? at hknown ⊢
  cases ha : t.appended? id with
  | none => rfl
  | some a =>
      simp only [ha, Option.bind_some, Option.isSome_map, Option.isSome_some] at hknown ⊢
      obtain ⟨n, hn⟩ := Option.isSome_iff_exists.mp hknown
      rw [hn, hext.values _ _ _ hn, hext.entrypoint]

theorem Recorded.step {log : List StatementId} {id : StatementId} (h : g.Recorded t log)
    (hl : (tracing t.program).leads g g') (hgains : g.GainsOnly t ⟨g.entrypoint, id⟩ (t.appended? id) g') :
    g'.Recorded t (id :: log) := by
  have hsame : ∀ k ∈ log, t.element? g' k = t.element? g k := fun k hk => element?_of_extends hl.1 (h.known k hk)
  have hlog : log.filterMap (t.element? g') = log.filterMap (t.element? g) := List.filterMap_congr hsame
  have hknown : ∀ k ∈ log, (t.element? g' k).isSome = (t.appended? k).isSome :=
    fun k hk => hsame k hk ▸ h.known k hk
  cases ha : t.appended? id with
  | none =>
      have hnone : t.element? g' id = none := by simp [Setting.element?, ha]
      rw [ha] at hgains
      refine ⟨hl.2 h.traceable, ?_, List.forall_mem_cons.mpr ⟨by simp [hnone, ha], hknown⟩⟩
      rw [List.filterMap_cons_none hnone, hlog, hgains]
      exact h.elements
  | some a =>
      rw [ha] at hgains
      obtain ⟨n, hn, hperm⟩ := hgains
      have hsome : t.element? g' id = some (t.program.element a.1 a.2 n ⟨g.entrypoint, id⟩) := by
        simp [Setting.element?, ha, hn, hl.1.entrypoint]
      refine ⟨hl.2 h.traceable, ?_, List.forall_mem_cons.mpr ⟨by simp [hsome, ha], hknown⟩⟩
      rw [List.filterMap_cons_some hsome, hlog]
      exact hperm.trans (h.elements.cons _)

theorem Recorded.length {log : List StatementId} (h : g.Recorded t log) :
    g.appended.length = log.countP fun id => (t.appended? id).isSome := by
  rw [h.elements.length_eq, List.length_filterMap_eq_countP]
  exact List.countP_congr fun id hid => by rw [h.known id hid]

theorem recorded_build {e : EntrypointId} {cancelled : Bool} {stats : BuildStats}
    (hok : (({ entrypoint := e } : FlowGraph).build t cancelled).result = .ok stats) :
    (({ entrypoint := e } : FlowGraph).build t cancelled).graph.Recorded t
      (({ entrypoint := e } : FlowGraph).handledBy t cancelled) := by
  refine build_logged (I := fun log g => g.Recorded t log) ⟨⟨wellFormed_begun e, ?_, ?_⟩, .refl _, nofun⟩ ?_ hok
  · intro n q slot l hn
    simp [kind?, node?] at hn
  · intro n id hid
    simp [chainsAt, record?] at hid
  · intro id statement log s s' hstatement hrecorded hrun
    obtain ⟨hl, hgains⟩ := Build.gains_visit hstatement hrecorded.traceable hrun
    exact hrecorded.step hl hgains

/-- As many elements of a list have a property as there are different ones just if each of them is there once. -/
theorem countP_eq_ncard_iff {α : Type} [DecidableEq α] {as : List α} {P : α → Bool} {S : Set α}
    (hS : ∀ a, a ∈ S ↔ a ∈ as ∧ P a) : as.countP P = S.ncard ↔ ∀ a, P a → as.count a ≤ 1 := by
  have hfinset : S = ↑(as.filter P).toFinset := by
    ext a
    simp [hS]
  have hcard : as.countP P = S.ncard ↔ (as.filter P).Nodup := by
    rw [hfinset, Set.ncard_coe_finset, List.countP_eq_length_filter, List.card_toFinset, ← List.dedup_eq_self]
    refine ⟨fun h => (List.dedup_sublist _).eq_of_length h.symm, fun h => congrArg List.length h.symm⟩
  rw [hcard, List.nodup_iff_count_le_one]
  refine forall_congr' fun a => ?_
  by_cases hP : P a
  · simp [List.count_filter hP, hP]
  · have hnot : a ∉ as.filter P := by simp [hP]
    simp [List.count_eq_zero.mpr hnot, hP]

/-- Every time that a build handles a statement that appends, it adds the element of that statement to one chain, and
nothing else adds any. So a statement that appends is recorded once for each run that comes to it, and there are as many
elements as there are such statements just if no two runs come to the same one. -/
theorem appended_per_run {e : EntrypointId} {t : Setting} {cancelled : Bool} {stats : BuildStats}
    (hok : (({ entrypoint := e } : FlowGraph).build t cancelled).result = .ok stats)
    (hrunning : stats.cancelled = false) :
    let g := (({ entrypoint := e } : FlowGraph).build t cancelled).graph
    let log := ({ entrypoint := e } : FlowGraph).handledBy t cancelled
    let runs := ({ entrypoint := e } : FlowGraph).runsBy t cancelled
    g.appended.Perm (log.filterMap (t.element? g)) ∧ g.appended.length = log.countP (fun id => (t.appended? id).isSome) ∧
      (∀ id, (t.appended? id).isSome → log.count id = runs.countP (id ∈ ·) ∧
        (t.program.Reaches id ↔ 0 < log.count id) ∧ (t.program.Reaches id → (t.element? g id).isSome)) ∧
      (g.appended.length = {id | t.program.Reaches id ∧ (t.appended? id).isSome}.ncard ↔
        ∀ id, (t.appended? id).isSome → runs.countP (id ∈ ·) ≤ 1) := by
  intro g log runs
  have hrecorded : g.Recorded t log := recorded_build hok
  obtain ⟨hlog, hhistory⟩ := build_history hok
  have hcount : ∀ id, log.count id = runs.countP (id ∈ ·) := fun id => by
    rw [← hhistory.count_flatten id, ← hlog]
  have hreached : ∀ id, (t.appended? id).isSome → (t.program.Reaches id ↔ id ∈ log) := fun id ha =>
    (and_iff_left (Setting.isSome_of_appended? ha)).symm.trans (mem_handledBy_iff hok hrunning id).symm
  refine ⟨hrecorded.elements, hrecorded.length, fun id ha => ⟨hcount id, ?_, fun hid => ?_⟩, ?_⟩
  · rw [hreached id ha, List.count_pos_iff]
  · rw [hrecorded.known id ((hreached id ha).mp hid)]
    exact ha
  · rw [hrecorded.length]
    refine (countP_eq_ncard_iff fun id => ?_).trans (forall₂_congr fun id _ => by rw [hcount])
    refine and_congr_left fun ha => hreached id ha

/-- A program with two roots, from both of which edges lead to a call that appends a value; then a text is appended. -/
def sharedAppendProgram : Program := GraphDocument.program
  { statements :=
      [⟨0, 0, .normal .other⟩, ⟨1, 0, .normal .other⟩,
        ⟨2, 0, .normal (.invoke ⟨appendMethod, false, [1, 2], some 3, true⟩)⟩,
        ⟨3, 0, .normal (.invoke ⟨appendMethod, false, [3, 4], some 5, true⟩)⟩]
    edges := [(0, 2), (1, 2), (2, 3)]
    literals := [⟨0, 4, .text "user="⟩] }

/-- What a build of the program gives. -/
theorem sharedAppendProgram_build :
    (∃ stats, (({ entrypoint := 0 } : FlowGraph).build ⟨sharedAppendProgram, {}, {}⟩ false).result = .ok stats ∧
      stats.cancelled = false) ∧
    (({ entrypoint := 0 } : FlowGraph).build ⟨sharedAppendProgram, {}, {}⟩ false).graph.appended =
      [.operand 1 ⟨0, 2⟩, .literal "user=", .operand 1 ⟨0, 2⟩] ∧
    ({ entrypoint := 0 } : FlowGraph).handledBy ⟨sharedAppendProgram, {}, {}⟩ false = [2, 1, 3, 2, 0] := by
  refine ⟨BuildOutcome.exists_running ?_, ?_⟩
  · decide +kernel
  · decide +kernel

theorem sharedAppendProgram_appends (id : StatementId) (hid : id ∈ [2, 1, 3, 2, 0]) :
    ((⟨sharedAppendProgram, {}, {}⟩ : Setting).appended? id).isSome ↔ id = 2 ∨ id = 3 := by
  simp only [List.mem_cons, List.not_mem_nil, or_false] at hid
  rcases hid with rfl | rfl | rfl | rfl | rfl <;> decide +kernel

theorem sharedAppendProgram_per_run :
    let t : Setting := ⟨sharedAppendProgram, {}, {}⟩
    let outcome := ({ entrypoint := 0 } : FlowGraph).build t false
    ∃ stats, outcome.result = .ok stats ∧ stats.cancelled = false ∧
      (({ entrypoint := 0 } : FlowGraph).runsBy t false).countP (2 ∈ ·) = 2 ∧
      outcome.graph.appended.length ≠ {id | t.program.Reaches id ∧ (t.appended? id).isSome}.ncard := by
  dsimp only
  obtain ⟨⟨stats, hok, hrunning⟩, _, hlog⟩ := sharedAppendProgram_build
  have happends := (sharedAppendProgram_appends 2 (by decide)).mpr (.inl rfl)
  obtain ⟨_, _, hcount, honce⟩ := appended_per_run hok hrunning
  have htwice := (hcount 2 happends).1
  rw [hlog] at htwice
  refine ⟨stats, hok, hrunning, htwice.symm, fun hequal => ?_⟩
  have hle := honce.mp hequal 2 happends
  rw [← htwice] at hle
  exact absurd hle (by decide)

/-- A call that two runs come to is recorded twice: here the value is found again behind the text that was appended
after it, as if the text were its name. -/
theorem sharedAppendProgram_repeats :
    let t : Setting := ⟨sharedAppendProgram, {}, {}⟩
    let outcome := ({ entrypoint := 0 } : FlowGraph).build t false
    (∃ stats, outcome.result = .ok stats ∧ stats.cancelled = false) ∧
      {id | t.program.Reaches id ∧ (t.appended? id).isSome} = {2, 3} ∧
      outcome.graph.appended = [.operand 1 ⟨0, 2⟩, .literal "user=", .operand 1 ⟨0, 2⟩] ∧
      outcome.graph.appended.length ≠ {id | t.program.Reaches id ∧ (t.appended? id).isSome}.ncard := by
  dsimp only
  obtain ⟨⟨stats, hok, hrunning⟩, happended, hlog⟩ := sharedAppendProgram_build
  have hsites : {id | sharedAppendProgram.Reaches id ∧
      ((⟨sharedAppendProgram, {}, {}⟩ : Setting).appended? id).isSome} = {2, 3} := by
    ext id
    have hhandled := mem_handledBy_iff hok hrunning id
    rw [hlog] at hhandled
    constructor
    · rintro ⟨hreach, happends⟩
      have hid := hhandled.mpr ⟨hreach, Setting.isSome_of_appended? happends⟩
      exact (sharedAppendProgram_appends id hid).mp happends
    · intro hsite
      have hid : id ∈ [2, 1, 3, 2, 0] := by
        rcases hsite with rfl | rfl <;> decide
      exact ⟨(hhandled.mp hid).1, (sharedAppendProgram_appends id hid).mpr hsite⟩
  refine ⟨⟨stats, hok, hrunning⟩, hsites, happended, ?_⟩
  rw [happended, hsites, Set.ncard_pair (by decide)]
  decide

end FlowGraph

end SinkFlow
