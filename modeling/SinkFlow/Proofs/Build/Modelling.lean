import SinkFlow.Proofs.Build.Effects
import SinkFlow.Proofs.Program

/-!
Which constraints a call without a body adds. The first model that applies says which values of the call are related;
the constraints between their nodes are added unless they are there or would relate a node to itself. Only a rule that
names an operand that the call lacks makes this fail.
-/

namespace SinkFlow

/-! ## Models -/

instance (config : Config) (call : Invoke) : Decidable (call.BuildsText config) :=
  inferInstanceAs (Decidable (config.isStringBuilderClass call.signature.className ∧ call.receiver.isSome ∧
    (call.signature.methodName = "toString" ∨ call.signature.isConstructor ∨
      call.signature.methodName = "append" ∧ call.arguments ≠ [])))

/-- The first model that applies to a call. -/
def Setting.modelOf (t : Setting) (call : Invoke) : CallModel :=
  if call.BuildsText t.config then .stringBuilder
  else if (t.rules.propagation? call.signature).isSome then .propagationRule
  else if (t.rules.source? call.signature).isSome && call.result.isSome then .sourceCorrelation
  else .heuristic

/-- One of the rules for a call names an operand that the call lacks. -/
structure Setting.Misses (t : Setting) (call : Invoke) (index : Int) : Prop where
  model : t.modelOf call = .propagationRule
  rule : ∃ set, t.rules.propagation? call.signature = some set ∧ ∃ rule ∈ set.rules, index = rule.left ∨ index = rule.right
  operand : call.operand index = none

/-- What a call of a string builder relates: its result is the builder, which knows what it is made of. -/
inductive Invoke.Builds (call : Invoke) : ValueSlot → ConstraintKind → ValueSlot → Prop where
  | result {receiver result : ValueSlot}
      (hname : call.signature.methodName = "toString" ∨ call.signature.methodName = "append")
      (hreceiver : call.receiver = some receiver) (hresult : call.result = some result) : Builds call result .eq receiver
  | argument {receiver argument : ValueSlot}
      (hmethod : call.signature.methodName = "append" ∨ call.signature.isConstructor)
      (hreceiver : call.receiver = some receiver) (hargument : call.arguments.head? = some argument) :
      Builds call receiver .geAppend argument

/-- What rules say about the operands of a call. -/
inductive Invoke.Follows (call : Invoke) (rules : List PropagationRule) :
    ValueSlot → ConstraintKind → ValueSlot → Prop where
  | rule {rule : PropagationRule} {target source : Int} {a b : ValueSlot} (hrule : rule ∈ rules)
      (hcarries : rule.Carries target source) (htarget : call.operand target = some a)
      (hsource : call.operand source = some b) : Follows call rules a .ge b

/-- What is assumed of a call without a model: constants among its arguments flow into the other ones, and these, or
the constants if there are no others, into the value that the call changes. -/
inductive Setting.Supposes (t : Setting) (call : Invoke) (constant : ValueSlot → Bool) :
    ValueSlot → ConstraintKind → ValueSlot → Prop where
  | supplied {a b : ValueSlot} (ha : a ∈ call.arguments) (hopen : constant a = false) (hb : b ∈ call.arguments)
      (hconstant : constant b) : Supposes t call constant a .ge b
  | changed {a b : ValueSlot} (ha : call.changed = some a) (hb : b ∈ call.arguments)
      (hchosen : constant b = false ∨ ∀ c ∈ call.arguments, constant c) :
      Supposes t call constant a (t.assumedKind call) b

namespace GraphTables

variable {g g' g'' : GraphTables} {q : ProcedureId} {path : Path} {n m : NodeId} {kind : ConstraintKind}

/-- The keys of the constraints. -/
def keys (g : GraphTables) : List ConstraintKey := g.constraints.toList.map Constraint.key

/-- A key is that of a constraint between the nodes of two values of a procedure that are related. -/
def Joins (g : GraphTables) (q : ProcedureId) (S : ValueSlot → ConstraintKind → ValueSlot → Prop) (k : ConstraintKey) : Prop :=
  ∃ a b, S a k.2.1 b ∧ g.valueNode? q a = some k.1 ∧ g.valueNode? q b = some k.2.2

/-- Whether the node of a value is a constant. -/
def holdsConstant (g : GraphTables) (q : ProcedureId) (slot : ValueSlot) : Bool :=
  (g.valueNode? q slot).any fun n => (g.node? n).any Node.isConstant

/-- Constraints over a path were added: those with keys in `K`, unless they were there or would relate a node to
itself. -/
def Adds (path : Path) (K : ConstraintKey → Prop) (g g' : GraphTables) : Prop :=
  ∃ new, g'.constraints.toList = g.constraints.toList ++ new ∧ (∀ c ∈ new, c.path = path) ∧
    (new.map Constraint.key).Nodup ∧ ∀ k, k ∈ new.map Constraint.key ↔ K k ∧ k.1 ≠ k.2.2 ∧ k ∉ g.keys

/-- A constraint that is there is found by its key. -/
theorem InStep.exists_constraintId? (h : g.InStep) (hkey : (n, kind, m) ∈ g.keys) :
    ∃ id, g.constraintId? n kind m = some id := by
  obtain ⟨⟨target, kind', source, path⟩, hc, heq⟩ := List.mem_map.mp hkey
  cases heq
  obtain ⟨id, hid⟩ := Array.getElem?_of_mem (Array.mem_toList_iff.mp hc)
  exact ⟨id, (h.index _ _ _ id).mpr ⟨path, hid⟩⟩

namespace Adds

variable {K K' : ConstraintKey → Prop}

theorem none (h : g'.constraints = g.constraints) : Adds path (fun _ => False) g g' :=
  ⟨[], by simp [h], nofun, .nil, by simp⟩

theorem congr (h : Adds path K g g') (hK : ∀ k, K k ↔ K' k) : Adds path K' g g' := by
  obtain ⟨new, hlist, hpath, hnodup, hkeys⟩ := h
  exact ⟨new, hlist, hpath, hnodup, fun k => (hkeys k).trans (and_congr_left' (hK k))⟩

theorem trans (h : Adds path K g g') (h' : Adds path K' g' g'') : Adds path (fun k => K k ∨ K' k) g g'' := by
  obtain ⟨new, hlist, hpath, hnodup, hkeys⟩ := h
  obtain ⟨later, hlist', hpath', hnodup', hkeys'⟩ := h'
  have hmem : ∀ k, k ∈ g'.keys ↔ k ∈ g.keys ∨ k ∈ new.map Constraint.key := by
    intro k
    simp only [keys, hlist, List.map_append, List.mem_append]
  refine ⟨new ++ later, ?_, List.forall_mem_append.mpr ⟨hpath, hpath'⟩, ?_, fun k => ?_⟩
  · rw [hlist', hlist, List.append_assoc]
  · rw [List.map_append, List.nodup_append]
    refine ⟨hnodup, hnodup', ?_⟩
    rintro k hk _ hk' rfl
    exact ((hkeys' k).mp hk').2.2 ((hmem k).mpr (.inr hk))
  · rw [List.map_append, List.mem_append, hkeys', hmem, hkeys]
    grind

/-- What leaves the constraints alone may come before or after. -/
theorem of_eq {h h' : GraphTables} (hadds : Adds path K h h') (hbefore : h.constraints = g.constraints)
    (hafter : g'.constraints = h'.constraints) : Adds path K g g' := by
  obtain ⟨new, hlist, hpath, hnodup, hkeys⟩ := hadds
  refine ⟨new, by rw [hafter, hlist, hbefore], hpath, hnodup, fun k => ?_⟩
  rw [hkeys, keys, keys, hbefore]

/-- What is added for one key that is not there yet, and joins two nodes, is one constraint. -/
theorem eq_push {k : ConstraintKey} (h : Adds path (· = k) g g') (hapart : k.1 ≠ k.2.2) (hfree : k ∉ g.keys) :
    g'.constraints = g.constraints.push ⟨k.1, k.2.1, k.2.2, path⟩ := by
  obtain ⟨new, hlist, hpath, hnodup, hkeys⟩ := h
  have hsingle : (new.map Constraint.key).Perm [k] := by
    refine (List.perm_ext_iff_of_nodup hnodup (List.nodup_singleton k)).mpr fun k' => ?_
    rw [hkeys, List.mem_singleton]
    refine ⟨fun hk => hk.1, fun hk => ⟨hk, ?_⟩⟩
    rw [hk]
    exact ⟨hapart, hfree⟩
  obtain ⟨c, rfl, hkey⟩ := List.map_eq_singleton_iff.mp (List.perm_singleton.mp hsingle)
  have hc : c = ⟨k.1, k.2.1, k.2.2, path⟩ := by
    rw [← hkey, ← hpath c (List.mem_singleton_self c)]
    rfl
  rw [← Array.toList_inj, hlist, hc, Array.toList_push]

end Adds

theorem adds_addConstraint {r : Option ConstraintId} (hstep : g.InStep)
    (hg : g.addConstraint n kind m path = .ok (r, g')) : Adds path (· = (n, kind, m)) g g' := by
  obtain ⟨_, _, _, ⟨rfl, _, rfl⟩ | ⟨_, ⟨id, hid, _⟩, rfl⟩ | ⟨hnm, hnew, _, rfl⟩⟩ := addConstraint_cases hg
  · exact ⟨[], by simp, nofun, .nil, by simp⟩
  · obtain ⟨path', hc⟩ := (hstep.index n kind m id).mp hid
    have hthere : (n, kind, m) ∈ g'.keys :=
      List.mem_map_of_mem (f := Constraint.key) (Array.mem_toList_iff.mpr (Array.mem_of_getElem? hc))
    exact ⟨[], by simp, nofun, .nil, by simp [hthere]⟩
  · have hfree : (n, kind, m) ∉ g.keys := by
      intro hthere
      obtain ⟨id, hid⟩ := hstep.exists_constraintId? hthere
      cases hnew.symm.trans hid
    refine ⟨[⟨n, kind, m, path⟩], ?_, by simp, by simp, fun k => ?_⟩
    · rw [constraints_pushConstraint, Array.toList_push]
    · simp only [List.map_singleton, List.mem_singleton, Constraint.key]
      refine ⟨fun hk => ⟨hk, ?_⟩, fun hk => hk.1⟩
      rw [hk]
      exact ⟨hnm, hfree⟩

theorem constraints_valueNode (g : GraphTables) (q : ProcedureId) (slot : ValueSlot) (literal : Option Literal) :
    (g.valueNode q slot literal).2.constraints = g.constraints := by
  unfold valueNode
  split <;> rfl

/-- A stand-in gets the next position, and all other nodes stay what they are. -/
theorem kind?_standIn_eq (g : GraphTables) (q : ProcedureId) (tag : String) : ∃ number, ∀ k,
    (g.standIn q tag).2.kind? k = if k = g.nodes.size then some (.standIn number tag) else g.kind? k :=
  ⟨(g.scope q).nextNumber, kind?_push (v := { id := g.nodes.size, kind := .standIn _ tag }) rfl⟩

/-! ## Values that are related -/

/-- Constraints were added between the nodes of values of a procedure, for those that are related, and these values
have nodes. -/
structure AddsBetween (path : Path) (q : ProcedureId) (S : ValueSlot → ConstraintKind → ValueSlot → Prop)
    (g g' : GraphTables) : Prop where
  resolved : ∀ a kind b, S a kind b → (g'.valueNode? q a).isSome ∧ (g'.valueNode? q b).isSome
  adds : Adds path (g'.Joins q S) g g'

theorem Extends.valueNode?_eq {slot : ValueSlot} (h : Extends g g') (hslot : (g.valueNode? q slot).isSome) :
    g'.valueNode? q slot = g.valueNode? q slot := by
  obtain ⟨n, hn⟩ := Option.isSome_iff_exists.mp hslot
  rw [hn, h.values q slot n hn]

namespace AddsBetween

variable {S S' : ValueSlot → ConstraintKind → ValueSlot → Prop}

theorem none (h : g'.constraints = g.constraints) : AddsBetween path q (fun _ _ _ => False) g g' :=
  ⟨nofun, (Adds.none h).congr fun k => by simp [Joins]⟩

theorem congr (h : AddsBetween path q S g g') (hS : ∀ a kind b, S a kind b ↔ S' a kind b) :
    AddsBetween path q S' g g' := by
  have hS : S = S' := by
    funext a kind b
    exact propext (hS a kind b)
  exact hS ▸ h

/-- Nodes of values stay, so what was related stays related in the same way. -/
theorem joins_iff (h : AddsBetween path q S g g') (hext : Extends g' g'') (k : ConstraintKey) :
    g'.Joins q S k ↔ g''.Joins q S k := by
  refine exists_congr fun a => exists_congr fun b => and_congr_right fun hS => ?_
  obtain ⟨ha, hb⟩ := h.resolved a k.2.1 b hS
  rw [hext.valueNode?_eq ha, hext.valueNode?_eq hb]

theorem mono (h : AddsBetween path q S g g') (hext : Extends g' g'') (hsame : g''.constraints = g'.constraints) :
    AddsBetween path q S g g'' where
  resolved a kind b hS := by
    obtain ⟨ha, hb⟩ := h.resolved a kind b hS
    rw [hext.valueNode?_eq ha, hext.valueNode?_eq hb]
    exact ⟨ha, hb⟩
  adds := (h.adds.of_eq rfl hsame).congr (h.joins_iff hext)

theorem trans (h : AddsBetween path q S g g') (hext : Extends g' g'') (h' : AddsBetween path q S' g' g'') :
    AddsBetween path q (fun a kind b => S a kind b ∨ S' a kind b) g g'' where
  resolved a kind b hS := by
    rcases hS with hS | hS
    · obtain ⟨ha, hb⟩ := h.resolved a kind b hS
      rw [hext.valueNode?_eq ha, hext.valueNode?_eq hb]
      exact ⟨ha, hb⟩
    · exact h'.resolved a kind b hS
  adds := by
    refine ((h.adds.congr (h.joins_iff hext)).trans h'.adds).congr fun k => ?_
    simp only [Joins, or_and_right, exists_or]

theorem of_eq {h : GraphTables} (hadds : AddsBetween path q S h g') (hbefore : h.constraints = g.constraints) :
    AddsBetween path q S g g' := ⟨hadds.resolved, hadds.adds.of_eq hbefore rfl⟩

end AddsBetween

end GraphTables

open GraphTables

variable {t : Setting} {g : FlowGraph} {path : Path} {E : AnalysisError → Prop} {α : Type}

/-! ## Elementary steps -/

theorem Edit.ends_relate_adds {n m : NodeId} {kind : ConstraintKind} (hphase : g.phase = .building)
    (hn : (g.node? n).isSome) (hm : (g.node? m).isSome) :
    FlowGraph.building.Ends g (Edit.relate n kind m path)
      (fun _ g' => Adds path (· = (n, kind, m)) g g' ∧ ∀ k, g'.kind? k = g.kind? k) E := by
  obtain ⟨r, g', hadd⟩ := FlowGraph.exists_addConstraint hphase hn hm kind path
  have htables := FlowGraph.attempted_eq_ok_iff.mp hadd
  have hrelate : (g.addConstraint n kind m path).map (fun r => ((), r.2)) = .ok ((), g') := by simp [hadd, Except.map]
  exact Edit.ends_attempt hrelate ⟨extends_addConstraint htables, (living_addConstraint htables).2⟩
    ⟨adds_addConstraint g.inStep htables, kind?_addConstraint htables⟩

/-- Steps that each add some constraints add all of them. -/
theorem Edit.ends_forM_adds {as : List α} {f : α → Edit PUnit} {K : α → ConstraintKey → Prop}
    (h : ∀ a ∈ as, ∀ g' : FlowGraph, building.leads g g' → FlowGraph.building.Ends g' (f a) (fun _ g'' => Adds path (K a) g' g'') E) :
    FlowGraph.building.Ends g (as.forM f) (fun _ g' => Adds path (fun k => ∃ a ∈ as, K a k) g g') E := by
  induction as generalizing g with
  | nil => exact .pure ((Adds.none rfl).congr (by simp))
  | cons a as ih =>
      refine .bind (h a List.mem_cons_self g (building.refl g)) fun _ g₁ hl₁ ha => ?_
      refine (ih fun b hb g' hl => h b (List.mem_cons_of_mem a hb) g' (building.trans hl₁ hl)).imp fun _ g' _ has => ?_
      exact (ha.trans has).congr fun k => by simp

/-- A node is related to each of some nodes. -/
theorem Edit.ends_relateEach_adds {n : NodeId} {ms : List NodeId} {kind : ConstraintKind} (hphase : g.phase = .building)
    (hn : (g.node? n).isSome) (hms : ∀ m ∈ ms, (g.node? m).isSome) :
    FlowGraph.building.Ends g (ms.forM fun m => Edit.relate n kind m path)
      (fun _ g' => Adds path (fun k => ∃ m ∈ ms, k = (n, kind, m)) g g') E := by
  refine Edit.ends_forM_adds fun m hm g' hl => ?_
  have hn' := hl.1.node?_isSome hn
  have hm' := hl.1.node?_isSome (hms m hm)
  exact (Edit.ends_relate_adds (hl.1.phase.trans hphase) hn' hm').imp fun _ _ _ hadds => hadds.1

theorem Program.ends_slotNode_keys (q : ProcedureId) (slot : ValueSlot) :
    FlowGraph.building.Ends g (t.program.slotNode q slot)
      (fun n g' => g'.valueNode? q slot = some n ∧ g'.constraints = g.constraints) E := by
  exact Edit.ends_change (building_perform (t := t) (.inl (.value q slot)) rfl)
    ⟨valueNode?_valueNode g q slot _, constraints_valueNode g q slot _⟩

namespace CallSite

variable {s : CallSite}

theorem ends_relate_between {a b : ValueSlot} {n m : NodeId} {kind : ConstraintKind} (hphase : g.phase = .building)
    (hg : g.WellFormed) (hn : g.valueNode? s.procedure a = some n) (hm : g.valueNode? s.procedure b = some m) :
    FlowGraph.building.Ends g (Edit.relate n kind m path)
      (fun _ g' => AddsBetween path s.procedure (fun a' kind' b' => a' = a ∧ kind' = kind ∧ b' = b) g g') E := by
  refine (Edit.ends_relate_adds hphase (hg.node?_isSome hn) (hg.node?_isSome hm)).imp fun _ g' hl ⟨hadds, _⟩ => ?_
  have hn := hl.1.values _ _ _ hn
  have hm := hl.1.values _ _ _ hm
  refine ⟨?_, hadds.congr fun k => ?_⟩
  · rintro _ _ _ ⟨rfl, rfl, rfl⟩
    simp [hn, hm]
  · obtain ⟨n', kind', m'⟩ := k
    constructor
    · rintro ⟨⟩
      exact ⟨a, b, ⟨rfl, rfl, rfl⟩, hn, hm⟩
    · rintro ⟨_, _, ⟨rfl, rfl, rfl⟩, hn', hm'⟩
      cases hn.symm.trans hn'
      cases hm.symm.trans hm'
      rfl

theorem ends_operandNode_keys {index : Int}
    (herror : s.call.operand index = none → E (.unresolvedOperand s.call.signature index s.call.uses.length)) :
    FlowGraph.building.Ends g (s.operandNode t.program index)
      (fun n g' => (∃ slot, s.call.operand index = some slot ∧ g'.valueNode? s.procedure slot = some n) ∧
        g'.constraints = g.constraints) E := by
  unfold operandNode
  split
  · rename_i slot hslot
    exact (Program.ends_slotNode_keys _ slot).imp fun n g' _ ⟨hn, hsame⟩ => ⟨⟨slot, hslot, hn⟩, hsame⟩
  · exact .throw (herror ‹_›)

/-! ## String builders -/

theorem ends_modelToString_between (hphase : g.phase = .building) (hg : g.WellFormed) (receiver : ValueSlot) :
    FlowGraph.building.Ends g (s.modelToString t.program receiver)
      (fun _ g' => AddsBetween s.path s.procedure
        (fun a kind b => s.call.result = some a ∧ kind = .eq ∧ b = receiver) g g') E := by
  unfold modelToString
  split
  · rename_i result hresult
    refine .bind (Program.ends_slotNode_keys _ _) fun m g₁ hl₁ ⟨hm, h₁⟩ => ?_
    refine .bind (Program.ends_slotNode_keys _ _) fun n g₂ hl₂ ⟨hn, h₂⟩ => ?_
    have hphase₂ := hl₂.1.phase.trans (hl₁.1.phase.trans hphase)
    have hm := hl₂.1.values _ _ _ hm
    refine (ends_relate_between hphase₂ (hl₂.2 (hl₁.2 hg)) hn hm).imp fun _ g' _ hadds => ?_
    refine (hadds.of_eq (h₂.trans h₁)).congr fun a kind b => ?_
    rw [hresult, Option.some.injEq, eq_comm (a := a)]
  · rename_i hnone
    exact .pure ((AddsBetween.none rfl).congr fun a kind b => by simp [hnone])

theorem ends_modelAppend_between (hphase : g.phase = .building) (hg : g.WellFormed) (receiver argument : ValueSlot)
    (result : Option ValueSlot) :
    FlowGraph.building.Ends g (s.modelAppend t.program receiver argument result)
      (fun _ g' => AddsBetween s.path s.procedure
        (fun a kind b => (a = receiver ∧ kind = .geAppend ∧ b = argument) ∨
          (result = some a ∧ kind = .eq ∧ b = receiver)) g g') E := by
  unfold modelAppend
  refine .bind (Program.ends_slotNode_keys _ _) ?_
  rintro n g₁ hl₁ ⟨hn, h₁⟩
  refine .bind (Program.ends_slotNode_keys _ _) ?_
  rintro m g₂ hl₂ ⟨hm, h₂⟩
  have hphase₂ := hl₂.1.phase.trans (hl₁.1.phase.trans hphase)
  have hg₂ := hl₂.2 (hl₁.2 hg)
  have hn := hl₂.1.values _ _ _ hn
  refine .bind (ends_relate_between hphase₂ hg₂ hn hm) fun _ g₃ hl₃ hadds => ?_
  have hadds := hadds.of_eq (h₂.trans h₁)
  have hg₃ := hl₃.2 hg₂
  have hn := hl₃.1.values _ _ _ hn
  obtain ⟨id, g₄, hchain, htables⟩ := FlowGraph.chainFor_eq_ok (hg₃.node?_isSome hn)
  have hbegin : building.leads g₃ g₄ :=
    building_perform (t := t) (.inr (.inr (.inl (.begin n)))) (by simp [perform, FlowGraph.attempted_eq_ok_iff.mp hchain, Except.map])
  refine .bind (Q := fun _ g' => g'.constraints = g₃.constraints) (Edit.ends_attempt hchain hbegin htables.constraints)
    fun id g₄ hl₄ h₄ => ?_
  have hpush : building.leads g₄ (g₄.pushElement id (s.appended g₄ m)) :=
    building_perform (t := t) (.inr (.inr (.inl (.push id _)))) rfl
  refine .bind (Q := fun _ g' => g'.constraints = g₄.constraints) (Edit.ends_change hpush rfl) fun _ g₅ hl₅ h₅ => ?_
  have hl := building.trans hl₄ hl₅
  have hadds := hadds.mono hl.1 (h₅.trans h₄)
  split
  · rename_i slot
    refine .bind (Program.ends_slotNode_keys _ _) ?_
    rintro r g₆ hl₆ ⟨hr, h₆⟩
    have hl := building.trans hl hl₆
    have hphase₆ := hl.1.phase.trans (hl₃.1.phase.trans hphase₂)
    have hg₆ := hl.2 hg₃
    refine .bind (ends_relate_between hphase₆ hg₆ hr (hl.1.values _ _ _ hn)) fun _ g₇ hl₇ hresult => ?_
    have hr := hl₇.1.values _ _ _ hr
    obtain ⟨g₈, hattach, htables⟩ := FlowGraph.attachChain_eq_ok ((hl₇.2 hg₆).node?_isSome hr) id
    have hl₈ : building.leads g₇ g₈ := building_perform (t := t) (.inr (.inr (.inl (.attach r id)))) (FlowGraph.updated_eq_ok_iff.mp hattach)
    refine Edit.ends_attemptUpdate hattach hl₈ ?_
    refine (((hadds.mono hl₆.1 h₆).trans hl₇.1 hresult).mono hl₈.1 htables.constraints).congr fun a kind b => ?_
    rw [Option.some.injEq, eq_comm (a := slot)]
  · exact .pure (hadds.congr fun a kind b => by simp)

/-- A call of a string builder class is modelled if it builds a text, and then adds what it relates. -/
theorem ends_modelStringBuilder_between (hphase : g.phase = .building) (hg : g.WellFormed)
    (hclass : t.config.isStringBuilderClass s.call.signature.className) :
    FlowGraph.building.Ends g (s.modelStringBuilder t.program)
      (fun built g' => (built = true ∧ s.call.BuildsText t.config ∧
          AddsBetween s.path s.procedure s.call.Builds g g') ∨
        (built = false ∧ ¬ s.call.BuildsText t.config ∧ g' = g)) E := by
  have hmodel := s.textModel hclass t.program
  generalize s.modelStringBuilder t.program = x at hmodel ⊢
  cases hmodel with
  | none hmodel => exact .pure (.inr ⟨rfl, hmodel, rfl⟩)
  | empty hmodel hname harguments =>
      refine .pure (.inl ⟨rfl, hmodel, (AddsBetween.none rfl).congr fun a kind b => ⟨nofun, ?_⟩⟩)
      have hnot : s.call.signature.methodName = "<init>" := by simpa [MethodSignature.isConstructor] using hname
      rintro (⟨hmethod, _, _⟩ | ⟨_, _, hargument⟩)
      · simp [hnot] at hmethod
      · simp [harguments] at hargument
  | @text receiver hmodel hname hreceiver =>
      refine .bind (ends_modelToString_between hphase hg receiver) fun _ g' _ hadds => .pure (.inl ⟨rfl, hmodel, ?_⟩)
      refine hadds.congr fun a kind b => ⟨?_, ?_⟩
      · rintro ⟨hresult, rfl, rfl⟩
        exact .result (.inl hname) hreceiver hresult
      · rintro (⟨_, hreceiver', hresult⟩ | ⟨hmethod, _, _⟩)
        · exact ⟨hresult, rfl, Option.some.inj (hreceiver'.symm.trans hreceiver)⟩
        · simp [hname, MethodSignature.isConstructor] at hmethod
  | @append receiver argument hmodel hmethod hreceiver hargument =>
      refine .bind (ends_modelAppend_between hphase hg receiver argument _) fun _ g' _ hadds =>
        .pure (.inl ⟨rfl, hmodel, ?_⟩)
      have hnot : s.call.signature.methodName ≠ "toString" := by
        intro hname
        simp [hname, MethodSignature.isConstructor] at hmethod
      refine hadds.congr fun a kind b => ⟨?_, ?_⟩
      · rintro (⟨rfl, rfl, rfl⟩ | ⟨hresult, rfl, rfl⟩)
        · exact .argument hmethod hreceiver hargument
        · split at hresult
          · rename_i happend
            exact .result (.inr (by simpa using happend)) hreceiver hresult
          · cases hresult
      · rintro (⟨hname, hreceiver', hresult⟩ | ⟨_, hreceiver', hargument'⟩)
        · have happend := hname.resolve_left hnot
          exact .inr ⟨by simp [happend, hresult], rfl, Option.some.inj (hreceiver'.symm.trans hreceiver)⟩
        · exact .inl ⟨Option.some.inj (hreceiver'.symm.trans hreceiver), rfl,
            Option.some.inj (hargument'.symm.trans hargument)⟩

/-! ## Rules -/

/-- An error says that a call lacks an operand that one of some rules names. -/
def RejectsBy (s : CallSite) (rules : List PropagationRule) (e : AnalysisError) : Prop :=
  ∃ index, (∃ rule ∈ rules, index = rule.left ∨ index = rule.right) ∧ s.call.operand index = none ∧
    e = .unresolvedOperand s.call.signature index s.call.uses.length

theorem ends_applyRule_between (hphase : g.phase = .building) (hg : g.WellFormed) (rule : PropagationRule) :
    FlowGraph.building.Ends g (s.applyRule t.program rule)
      (fun _ g' => s.call.Fits rule ∧ AddsBetween s.path s.procedure (s.call.Follows [rule]) g g')
      (s.RejectsBy [rule]) := by
  have herror : ∀ index, index = rule.left ∨ index = rule.right → s.call.operand index = none →
      s.RejectsBy [rule] (.unresolvedOperand s.call.signature index s.call.uses.length) :=
    fun index hindex hnone => ⟨index, ⟨rule, List.mem_singleton_self _, hindex⟩, hnone, rfl⟩
  unfold applyRule
  refine .bind (ends_operandNode_keys (herror _ (.inl rfl))) ?_
  rintro n g₁ hl₁ ⟨⟨left, hleft, hn⟩, h₁⟩
  refine .bind (ends_operandNode_keys (herror _ (.inr rfl))) ?_
  rintro m g₂ hl₂ ⟨⟨right, hright, hm⟩, h₂⟩
  have hphase₂ := hl₂.1.phase.trans (hl₁.1.phase.trans hphase)
  have hg₂ := hl₂.2 (hl₁.2 hg)
  have hn := hl₂.1.values _ _ _ hn
  have hfits : s.call.Fits rule := by
    rintro index (rfl | rfl)
    · simp [hleft]
    · simp [hright]
  have hintoRight : ∀ g₃ : FlowGraph, building.leads g₂ g₃ → FlowGraph.building.Ends g₃
      (if rule.operator.flowsIntoRight then Edit.relate m .ge n s.path else pure ())
      (fun _ g' => AddsBetween s.path s.procedure
        (fun a kind b => rule.operator.flowsIntoRight ∧ a = right ∧ kind = .ge ∧ b = left) g₃ g') (s.RejectsBy [rule]) := by
    intro g₃ hl₃
    have hn := hl₃.1.values _ _ _ hn
    have hm := hl₃.1.values _ _ _ hm
    split
    · rename_i hflows
      refine (ends_relate_between (hl₃.1.phase.trans hphase₂) (hl₃.2 hg₂) hm hn).imp fun _ g' _ hadds => ?_
      exact hadds.congr fun a kind b => by simp [hflows]
    · rename_i hflows
      exact .pure ((AddsBetween.none rfl).congr fun a kind b => by simp [hflows])
  have hrule : ∀ a kind b, ((rule.operator.flowsIntoLeft ∧ a = left ∧ kind = .ge ∧ b = right) ∨
      (rule.operator.flowsIntoRight ∧ a = right ∧ kind = .ge ∧ b = left)) ↔ s.call.Follows [rule] a kind b := by
    intro a kind b
    constructor
    · rintro (⟨hflows, rfl, rfl, rfl⟩ | ⟨hflows, rfl, rfl, rfl⟩)
      · exact .rule (List.mem_singleton_self _) (.inl ⟨hflows, rfl, rfl⟩) hleft hright
      · exact .rule (List.mem_singleton_self _) (.inr ⟨hflows, rfl, rfl⟩) hright hleft
    · rintro ⟨hrule, hcarries, htarget, hsource⟩
      rw [List.mem_singleton.mp hrule] at hcarries
      rcases hcarries with ⟨hflows, rfl, rfl⟩ | ⟨hflows, rfl, rfl⟩
      · cases hleft.symm.trans htarget
        cases hright.symm.trans hsource
        exact .inl ⟨hflows, rfl, rfl, rfl⟩
      · cases hright.symm.trans htarget
        cases hleft.symm.trans hsource
        exact .inr ⟨hflows, rfl, rfl, rfl⟩
  dsimp only
  split
  · rename_i hflows
    refine .bind (ends_relate_between hphase₂ hg₂ hn hm) fun _ g₃ hl₃ hadds => ?_
    refine (hintoRight g₃ hl₃).imp fun _ g' hl' hadds' => ⟨hfits, ?_⟩
    exact ((hadds.trans hl'.1 hadds').of_eq (h₂.trans h₁)).congr fun a kind b => by simp [← hrule, hflows]
  · rename_i hflows
    refine (hintoRight g₂ (building.refl g₂)).imp fun _ g' _ hadds => ⟨hfits, ?_⟩
    exact (hadds.of_eq (h₂.trans h₁)).congr fun a kind b => by simp [← hrule, hflows]

/-- Rules add what they say about the operands, unless one of them names an operand that the call lacks. -/
theorem ends_applyRules_between (hphase : g.phase = .building) (hg : g.WellFormed) (rules : List PropagationRule) :
    FlowGraph.building.Ends g (rules.forM (s.applyRule t.program))
      (fun _ g' => (∀ rule ∈ rules, s.call.Fits rule) ∧ AddsBetween s.path s.procedure (s.call.Follows rules) g g')
      (s.RejectsBy rules) := by
  induction rules generalizing g with
  | nil =>
      refine .pure ⟨nofun, (AddsBetween.none rfl).congr fun a kind b => ⟨nofun, ?_⟩⟩
      rintro ⟨hrule, _⟩
      cases hrule
  | cons rule rules ih =>
      have hfirst := ends_applyRule_between (s := s) (t := t) hphase hg rule
      refine .bind (hfirst.mono (fun _ hl => hl) (fun _ _ _ hq => hq) ?_) ?_
      · rintro e ⟨index, ⟨_, hrule, hindex⟩, hnone, rfl⟩
        rw [List.mem_singleton.mp hrule] at hindex
        exact ⟨index, ⟨rule, List.mem_cons_self, hindex⟩, hnone, rfl⟩
      · rintro _ g₁ hl₁ ⟨hfits, hadds⟩
        refine (ih (hl₁.1.phase.trans hphase) (hl₁.2 hg)).mono (fun _ hl => hl) ?_ ?_
        · rintro _ g' hl' ⟨hall, hadds'⟩
          refine ⟨List.forall_mem_cons.mpr ⟨hfits, hall⟩, (hadds.trans hl'.1 hadds').congr fun a kind b => ⟨?_, ?_⟩⟩
          · rintro (⟨hrule, hcarries, htarget, hsource⟩ | ⟨hrule, hcarries, htarget, hsource⟩)
            · exact .rule (List.mem_singleton.mp hrule ▸ List.mem_cons_self) hcarries htarget hsource
            · exact .rule (List.mem_cons_of_mem _ hrule) hcarries htarget hsource
          · rintro ⟨hrule, hcarries, htarget, hsource⟩
            rcases List.mem_cons.mp hrule with rfl | hrule
            · exact .inl (.rule (List.mem_singleton_self _) hcarries htarget hsource)
            · exact .inr (.rule hrule hcarries htarget hsource)
        · rintro e ⟨index, ⟨rule', hrule', hindex⟩, hnone, rfl⟩
          exact ⟨index, ⟨rule', List.mem_cons_of_mem _ hrule', hindex⟩, hnone, rfl⟩

/-! ## Sensitive results -/

/-- A new stand-in for a sensitive result was made, and nothing was added but a constraint from it to the result. -/
structure AddsStandIn (path : Path) (q : ProcedureId) (result : ValueSlot) (tag : String) (g g' : GraphTables) : Prop where
  added : ∃ n m number, g'.valueNode? q result = some n ∧ g.node? m = none ∧ g'.kind? m = some (.standIn number tag) ∧
    g'.constraints = g.constraints.push ⟨n, .geUnidirectional, m, path⟩
  /-- No other stand-in was made. -/
  only : ∀ m m' number number' tag tag', g.node? m = none → g.node? m' = none →
    g'.kind? m = some (.standIn number tag) → g'.kind? m' = some (.standIn number' tag') → m = m'

/-- Asking for the node of a value makes no stand-in. -/
theorem ends_slotNode_standIns (slot : ValueSlot) :
    FlowGraph.building.Ends g (s.slotNode t.program slot)
      (fun n g' => g'.valueNode? s.procedure slot = some n ∧ g'.constraints = g.constraints ∧
        ∀ m number tag, g'.kind? m = some (.standIn number tag) → (g.node? m).isSome) E := by
  have hop : (Operation.valueNode s.procedure slot (t.program.literal? s.procedure slot)).Draws t.program :=
    .value s.procedure slot
  refine Edit.ends_change (building_perform (.inl hop) rfl)
    ⟨valueNode?_valueNode g _ _ _, constraints_valueNode g _ _ _, fun m number tag hm => ?_⟩
  rcases kind?_perform (.inl hop) rfl hm with hm | hmakes
  · rw [← kind?_isSome, hm]
    rfl
  · cases hmakes

/-- A constraint is added from a stand-in to the result, since there can be none at a new node. -/
theorem ends_applySource_adds (hphase : g.phase = .building) (hg : g.WellFormed) (result : ValueSlot)
    (source : SourceCorrelation) :
    FlowGraph.building.Ends g (s.applySource t.program result source)
      (fun _ g' => AddsStandIn s.path s.procedure result source.tag g g') E := by
  refine .bind (ends_slotNode_standIns result) ?_
  rintro n g₁ hl₁ ⟨hn, h₁, hold⟩
  refine .bind (Q := fun m (g₂ : FlowGraph) => g₂.constraints = g₁.constraints ∧ m = g₁.nodes.size ∧
    ∃ number, ∀ k, g₂.kind? k = if k = m then some (.standIn number source.tag) else g₁.kind? k)
    (Edit.ends_change (building_perform (t := t) (.inl (.standIn s.procedure source.tag)) rfl)
      ⟨rfl, rfl, kind?_standIn_eq g₁.toGraphTables _ _⟩) ?_
  rintro m g₂ hl₂ ⟨h₂, hm, number, hkind⟩
  -- Nodes stay, so what is new after the result has got its node was no node before.
  have hfresh : g.node? m = none := by
    rw [← Option.not_isSome_iff_eq_none, hm]
    exact fun hbefore => absurd (node?_isSome_iff.mp (hl₁.1.node?_isSome hbefore)) (Nat.lt_irrefl _)
  have hphase₂ := hl₂.1.phase.trans (hl₁.1.phase.trans hphase)
  have hg₂ := hl₂.2 (hl₁.2 hg)
  have hn := hl₂.1.values _ _ _ hn
  have hthere : (g₂.node? m).isSome := by simp [← kind?_isSome, hkind]
  refine (Edit.ends_relate_adds hphase₂ (hg₂.node?_isSome hn) hthere).imp ?_
  rintro _ g' hl' ⟨hadds, hsame⟩
  have hnew : ∀ k number' tag, g.node? k = none → g'.kind? k = some (.standIn number' tag) → k = m := by
    intro k number' tag hnone hk
    rw [hsame, hkind] at hk
    split at hk
    · assumption
    · simpa [hnone] using hold k number' tag hk
  refine ⟨⟨n, m, number, hl'.1.values _ _ _ hn, hfresh, by simp [hsame, hkind], ?_⟩, ?_⟩
  · have hapart : n ≠ m := by
      rintro rfl
      obtain ⟨l, hvalue⟩ := hg₂.found s.procedure result n hn
      simp [hkind] at hvalue
    have hfree : (n, ConstraintKind.geUnidirectional, m) ∉ g.keys := by
      intro hthere
      obtain ⟨⟨_, _, _, _⟩, hc, heq⟩ := List.mem_map.mp hthere
      cases heq
      simpa [hfresh] using (hg.ends _ (Array.mem_toList_iff.mp hc)).2
    exact (hadds.of_eq (h₂.trans h₁) rfl).eq_push hapart hfree
  · intro k k' i i' tag tag' hk hk' hi hi'
    rw [hnew k i tag hk hi, hnew k' i' tag' hk' hi']

/-! ## The general assumption -/

variable {q : ProcedureId} {slots : List ValueSlot} {g' : FlowGraph} {a : Arguments}

theorem holdsConstant_of_extends {slot : ValueSlot} (hg : g.WellFormed) (hext : g.Extends g')
    (hslot : (g.valueNode? q slot).isSome) : g'.holdsConstant q slot = g.holdsConstant q slot := by
  obtain ⟨n, hn⟩ := Option.isSome_iff_exists.mp hslot
  obtain ⟨v, hv⟩ := Option.isSome_iff_exists.mp (hg.node?_isSome hn)
  obtain ⟨v', hv', hkind, _⟩ := hext.nodes n v hv
  simp [holdsConstant, hn, hext.values _ _ _ hn, hv, hv', Node.isConstant, Node.literal?, hkind]

/-- The nodes that a call without a model relates, by the two things that are assumed of it. -/
theorem joins_supposes {constant : ValueSlot → Bool} {call : Invoke} {k : ConstraintKey} :
    g.Joins q (t.Supposes call constant) k ↔
      g.Joins q (fun x kind y => x ∈ call.arguments ∧ constant x = false ∧ y ∈ call.arguments ∧ constant y ∧
        kind = .ge) k ∨
      g.Joins q (fun x kind y => call.changed = some x ∧ y ∈ call.arguments ∧
        (constant y = false ∨ ∀ c ∈ call.arguments, constant c) ∧ kind = t.assumedKind call) k := by
  obtain ⟨n, kind, m⟩ := k
  constructor
  · rintro ⟨x, y, ⟨hx, hopen, hy, hconstant⟩ | ⟨hx, hy, hchosen⟩, hn, hm⟩
    · exact .inl ⟨x, y, ⟨hx, hopen, hy, hconstant, rfl⟩, hn, hm⟩
    · exact .inr ⟨x, y, ⟨hx, hy, hchosen, rfl⟩, hn, hm⟩
  · rintro (⟨x, y, ⟨hx, hopen, hy, hconstant, rfl⟩, hn, hm⟩ | ⟨x, y, ⟨hx, hy, hchosen, rfl⟩, hn, hm⟩)
    · exact ⟨x, y, .supplied hx hopen hy hconstant, hn, hm⟩
    · exact ⟨x, y, .changed hx hy hchosen, hn, hm⟩

/-- Sorted arguments are the nodes of some values, apart by whether they are constants. -/
structure Arguments.Sorted (q : ProcedureId) (slots : List ValueSlot) (g : FlowGraph) (a : Arguments) : Prop where
  resolved : ∀ slot ∈ slots, (g.valueNode? q slot).isSome
  free : ∀ n, n ∈ a.free ↔ ∃ slot ∈ slots, g.valueNode? q slot = some n ∧ g.holdsConstant q slot = false
  constants : ∀ n, n ∈ a.constants ↔ ∃ slot ∈ slots, g.valueNode? q slot = some n ∧ g.holdsConstant q slot

namespace Arguments.Sorted

theorem mono (h : a.Sorted q slots g) (hg : g.WellFormed) (hext : g.Extends g') : a.Sorted q slots g' where
  resolved slot hslot := by
    rw [hext.valueNode?_eq (h.resolved slot hslot)]
    exact h.resolved slot hslot
  free n := by
    refine (h.free n).trans (exists_congr fun slot => and_congr_right fun hslot => ?_)
    rw [hext.valueNode?_eq (h.resolved slot hslot), holdsConstant_of_extends hg hext (h.resolved slot hslot)]
  constants n := by
    refine (h.constants n).trans (exists_congr fun slot => and_congr_right fun hslot => ?_)
    rw [hext.valueNode?_eq (h.resolved slot hslot), holdsConstant_of_extends hg hext (h.resolved slot hslot)]

theorem node?_isSome {n : NodeId} (h : a.Sorted q slots g) (hg : g.WellFormed) (hn : n ∈ a.free ∨ n ∈ a.constants) :
    (g.node? n).isSome := by
  rcases hn with hn | hn
  · obtain ⟨slot, _, hn, _⟩ := (h.free n).mp hn
    exact hg.node?_isSome hn
  · obtain ⟨slot, _, hn, _⟩ := (h.constants n).mp hn
    exact hg.node?_isSome hn

/-- What flows into the arguments that can learn: the constants. -/
theorem joins_supplied (h : a.Sorted q slots g) (k : ConstraintKey) :
    (∃ n ∈ a.free, ∃ c ∈ a.constants, k = (n, .ge, c)) ↔
      g.Joins q (fun x kind y => x ∈ slots ∧ g.holdsConstant q x = false ∧ y ∈ slots ∧ g.holdsConstant q y ∧
        kind = .ge) k := by
  obtain ⟨n, kind, m⟩ := k
  simp only [Joins, Prod.mk.injEq, h.free, h.constants]
  constructor
  · rintro ⟨_, ⟨x, hx, hn, hopen⟩, _, ⟨y, hy, hm, hconstant⟩, rfl, rfl, rfl⟩
    exact ⟨x, y, ⟨hx, hopen, hy, hconstant, rfl⟩, hn, hm⟩
  · rintro ⟨x, y, ⟨hx, hopen, hy, hconstant, rfl⟩, hn, hm⟩
    exact ⟨n, ⟨x, hx, hn, hopen⟩, m, ⟨y, hy, hm, hconstant⟩, rfl, rfl, rfl⟩

/-- What flows into the value that a call changes: the arguments that can learn, or the constants if there are none. -/
theorem mem_sources (h : a.Sorted q slots g) (n : NodeId) :
    n ∈ (if a.free.isEmpty then a.constants else a.free) ↔ ∃ slot ∈ slots, g.valueNode? q slot = some n ∧
      (g.holdsConstant q slot = false ∨ ∀ other ∈ slots, g.holdsConstant q other) := by
  split
  · rename_i hempty
    have hall : ∀ slot ∈ slots, g.holdsConstant q slot := by
      intro slot hslot
      obtain ⟨m, hm⟩ := Option.isSome_iff_exists.mp (h.resolved slot hslot)
      cases hconstant : g.holdsConstant q slot with
      | true => rfl
      | false =>
          have hfree := (h.free m).mpr ⟨slot, hslot, hm, hconstant⟩
          rw [List.isEmpty_iff.mp hempty] at hfree
          cases hfree
    rw [h.constants]
    refine exists_congr fun slot => and_congr_right fun hslot => and_congr_right fun _ => ?_
    exact ⟨fun _ => .inr hall, fun _ => hall slot hslot⟩
  · rename_i hnonempty
    obtain ⟨m, hm⟩ := List.exists_mem_of_ne_nil a.free (by simpa using hnonempty)
    obtain ⟨open', hslot', _, hopen'⟩ := (h.free m).mp hm
    rw [h.free]
    refine exists_congr fun slot => and_congr_right fun _ => and_congr_right fun _ => ⟨.inl, ?_⟩
    rintro (hopen | hall)
    · exact hopen
    · rw [hall open' hslot'] at hopen'
      cases hopen'

theorem joins_changed {call : Invoke} {changed : ValueSlot} {target : NodeId} (h : a.Sorted q call.arguments g)
    (hchanged : call.changed = some changed) (htarget : g.valueNode? q changed = some target) (k : ConstraintKey) :
    (∃ n ∈ (if a.free.isEmpty then a.constants else a.free), k = (target, t.assumedKind call, n)) ↔
      g.Joins q (fun x kind y => call.changed = some x ∧ y ∈ call.arguments ∧
        (g.holdsConstant q y = false ∨ ∀ c ∈ call.arguments, g.holdsConstant q c) ∧ kind = t.assumedKind call) k := by
  obtain ⟨n, kind, m⟩ := k
  simp only [h.mem_sources]
  constructor
  · rintro ⟨_, ⟨y, hy, hm, hchosen⟩, heq⟩
    cases heq
    exact ⟨changed, y, ⟨hchanged, hy, hchosen, rfl⟩, htarget, hm⟩
  · rintro ⟨x, y, ⟨hx, hy, hchosen, rfl⟩, hn, hm⟩
    cases hchanged.symm.trans hx
    cases htarget.symm.trans hn
    exact ⟨m, ⟨y, hy, hm, hchosen⟩, rfl⟩

end Arguments.Sorted

theorem ends_sortArguments_sorted {done rest : List ValueSlot} (hg : g.WellFormed) (ha : a.Sorted s.procedure done g) :
    FlowGraph.building.Ends g (s.sortArguments t.program rest a)
      (fun arguments g' => arguments.Sorted s.procedure (done ++ rest) g' ∧ g'.constraints = g.constraints) E := by
  induction rest generalizing g a done with
  | nil => exact .pure ⟨by simpa using ha, rfl⟩
  | cons slot rest ih =>
      refine .bind (Program.ends_slotNode_keys _ slot) fun n g₁ hl₁ ⟨hn, h₁⟩ => .get_bind ?_
      have hg₁ := hl₁.2 hg
      have ha := ha.mono hg hl₁.1
      have hconstant : (g₁.node? n).any Node.isConstant = g₁.holdsConstant s.procedure slot := by
        simp [holdsConstant, hn]
      have hresolved : ∀ k ∈ done ++ [slot], (g₁.valueNode? s.procedure k).isSome :=
        List.forall_mem_append.mpr ⟨ha.resolved, by simp [hn]⟩
      rw [hconstant, List.append_cons]
      split
      · rename_i hslot
        refine (ih hg₁ ⟨hresolved, fun m => ?_, fun m => ?_⟩).imp fun _ g' _ h' => ⟨h'.1, h'.2.trans h₁⟩
        · simp [ha.free, or_and_right, exists_or, hslot]
        · simp [ha.constants, or_and_right, exists_or, hslot, hn, @eq_comm _ m n]
      · rename_i hslot
        refine (ih hg₁ ⟨hresolved, fun m => ?_, fun m => ?_⟩).imp fun _ g' _ h' => ⟨h'.1, h'.2.trans h₁⟩
        · simp [ha.free, or_and_right, exists_or, hslot, hn, @eq_comm _ m n]
        · simp [ha.constants, or_and_right, exists_or, hslot]

theorem ends_optionalNode_keys (slot : Option ValueSlot) :
    FlowGraph.building.Ends g (s.optionalNode t.program slot)
      (fun r g' => (slot.isSome = r.isSome ∧
        ∀ a n, slot = some a → r = some n → g'.valueNode? s.procedure a = some n) ∧ g'.constraints = g.constraints) E := by
  cases slot with
  | none => exact .pure ⟨⟨rfl, nofun⟩, rfl⟩
  | some slot =>
      simp only [optionalNode, ← bind_pure_comp]
      refine .bind (Program.ends_slotNode_keys _ slot) ?_
      rintro n g₁ _ ⟨hn, h₁⟩
      refine .pure ⟨⟨rfl, ?_⟩, h₁⟩
      rintro _ _ ⟨⟩ ⟨⟩
      exact hn

/-- The values that a call without a model relates have nodes if its arguments have, and what it changes. -/
theorem resolved_supposes {call : Invoke} {constant : ValueSlot → Bool}
    (harguments : ∀ slot ∈ call.arguments, (g.valueNode? q slot).isSome)
    (hchanged : ∀ slot, call.changed = some slot → (g.valueNode? q slot).isSome) (a : ValueSlot) (kind : ConstraintKind)
    (b : ValueSlot) (h : t.Supposes call constant a kind b) : (g.valueNode? q a).isSome ∧ (g.valueNode? q b).isSome := by
  rcases h with ⟨ha, _, hb, _⟩ | ⟨ha, hb, _⟩
  · exact ⟨harguments a ha, harguments b hb⟩
  · exact ⟨hchanged a ha, harguments b hb⟩

/-- The assumption adds constraints between sorted arguments, and from them to the value that the call changes. -/
theorem ends_applyHeuristic_adds (hphase : g.phase = .building) (hg : g.WellFormed) :
    FlowGraph.building.Ends g (s.applyHeuristic t.program t.config)
      (fun _ g' => (∀ slot ∈ s.call.arguments, (g'.valueNode? s.procedure slot).isSome) ∧
        AddsBetween s.path s.procedure (t.Supposes s.call (g'.holdsConstant s.procedure)) g g') E := by
  unfold applyHeuristic
  refine .bind (ends_optionalNode_keys _) fun receiver g₁ hl₁ ⟨hreceiver, h₁⟩ => ?_
  refine .bind (ends_optionalNode_keys _) fun result g₂ hl₂ ⟨hresult, h₂⟩ => ?_
  have hg₂ := hl₂.2 (hl₁.2 hg)
  have hnone : Arguments.Sorted s.procedure [] g₂ {} := ⟨nofun, by simp, by simp⟩
  refine .bind (ends_sortArguments_sorted hg₂ hnone) fun arguments g₃ hl₃ ⟨hsorted, h₃⟩ => ?_
  rw [List.nil_append] at hsorted
  have hg₃ := hl₃.2 hg₂
  have hphase₃ := hl₃.1.phase.trans (hl₂.1.phase.trans (hl₁.1.phase.trans hphase))
  have hsame := h₃.trans (h₂.trans h₁)
  have hchanged : (s.call.changed.isSome = (if s.call.isStatic then result else receiver).isSome) ∧
      ∀ a n, s.call.changed = some a → (if s.call.isStatic then result else receiver) = some n →
        g₃.valueNode? s.procedure a = some n := by
    unfold Invoke.changed
    split
    · exact ⟨hresult.1, fun a n ha hn => hl₃.1.values _ _ _ (hresult.2 a n ha hn)⟩
    · exact ⟨hreceiver.1, fun a n ha hn => hl₃.1.values _ _ _ (hl₂.1.values _ _ _ (hreceiver.2 a n ha hn))⟩
  have hsupply : FlowGraph.building.Ends g₃ (arguments.free.forM fun n => arguments.constants.forM fun c =>
        Edit.relate n .ge c s.path)
      (fun _ g' => Adds s.path (fun k => ∃ n ∈ arguments.free, ∃ c ∈ arguments.constants, k = (n, .ge, c)) g₃ g') E := by
    refine Edit.ends_forM_adds fun n hn g' hl => ?_
    refine Edit.ends_relateEach_adds (hl.1.phase.trans hphase₃) ?_ fun c hc => ?_
    · exact hl.1.node?_isSome (hsorted.node?_isSome hg₃ (.inl hn))
    · exact hl.1.node?_isSome (hsorted.node?_isSome hg₃ (.inr hc))
  refine .bind hsupply fun _ g₄ hl₄ hsupplied => ?_
  have hg₄ := hl₄.2 hg₃
  have hsorted := hsorted.mono hg₃ hl₄.1
  have hsupplied := hsupplied.of_eq hsame rfl
  split
  · rename_i htarget
    have hnone : s.call.changed = none := by simpa [htarget] using hchanged.1
    refine .pure ⟨hsorted.resolved, resolved_supposes hsorted.resolved (by simp [hnone]), hsupplied.congr fun k => ?_⟩
    rw [hsorted.joins_supplied, joins_supposes]
    simp [Joins, hnone]
  · rename_i target htarget
    obtain ⟨changed, hchanged'⟩ := Option.isSome_iff_exists.mp (hchanged.1.trans (Option.isSome_of_eq_some htarget))
    have hn := hl₄.1.values _ _ _ (hchanged.2 changed target hchanged' htarget)
    have hsources : ∀ n ∈ (if arguments.free.isEmpty then arguments.constants else arguments.free),
        (g₄.node? n).isSome := by
      intro n hn
      refine hsorted.node?_isSome hg₄ ?_
      split at hn
      · exact .inr hn
      · exact .inl hn
    refine (Edit.ends_relateEach_adds (hl₄.1.phase.trans hphase₃) (hg₄.node?_isSome hn) hsources).imp ?_
    intro _ g' hl hassumed
    have hsorted := hsorted.mono hg₄ hl.1
    have hn := hl.1.values _ _ _ hn
    refine ⟨hsorted.resolved, resolved_supposes hsorted.resolved ?_, (hsupplied.trans hassumed).congr fun k => ?_⟩
    · intro slot hslot
      cases hchanged'.symm.trans hslot
      simp [hn]
    · rw [hsorted.joins_supplied, joins_supposes]
      exact or_congr_right (hsorted.joins_changed hchanged' hn k)

/-! ## Calls without a body -/

/-- What a call without a body adds to a graph by its model. The values that it relates have nodes afterwards, also all
arguments on which the general assumption depends. -/
def Modelled (s : CallSite) (t : Setting) (g g' : GraphTables) : Prop :=
  match t.modelOf s.call with
  | .stringBuilder => AddsBetween s.path s.procedure s.call.Builds g g'
  | .propagationRule =>
    ∃ set, t.rules.propagation? s.call.signature = some set ∧
      AddsBetween s.path s.procedure (s.call.Follows set.rules) g g'
  | .sourceCorrelation =>
    ∃ source result, t.rules.source? s.call.signature = some source ∧ s.call.result = some result ∧
      AddsStandIn s.path s.procedure result source.tag g g'
  | .heuristic =>
    (∀ slot ∈ s.call.arguments, (g'.valueNode? s.procedure slot).isSome) ∧
      AddsBetween s.path s.procedure (t.Supposes s.call (g'.holdsConstant s.procedure)) g g'

/-- What modelling a call makes sure of: the first model that applies was taken, and added what it gives. -/
structure Models (s : CallSite) (t : Setting) (g : FlowGraph) (model : CallModel) (g' : FlowGraph) : Prop where
  model : model = t.modelOf s.call
  fits : ∀ index, ¬ t.Misses s.call index
  adds : s.Modelled t g g'

theorem ends_modelByRules_adds (hphase : g.phase = .building) (hg : g.WellFormed)
    (hmodel : ¬ s.call.BuildsText t.config) :
    FlowGraph.building.Ends g (s.modelByRules t) (s.Models t g)
      (fun e => ∃ index, t.Misses s.call index ∧ e = .unresolvedOperand s.call.signature index s.call.uses.length) := by
  have hfits : t.modelOf s.call ≠ .propagationRule → ∀ index, ¬ t.Misses s.call index :=
    fun hne index hmisses => hne hmisses.model
  unfold modelByRules
  split
  · rename_i set hset
    have hof : t.modelOf s.call = .propagationRule := by simp [Setting.modelOf, hmodel, hset]
    have hrules := ends_applyRules_between (s := s) (t := t) hphase hg set.rules
    refine .bind (hrules.mono (fun _ hl => hl) (fun _ _ _ hq => hq) ?_) ?_
    · rintro e ⟨index, hrule, hnone, rfl⟩
      exact ⟨index, ⟨hof, ⟨set, hset, hrule⟩, hnone⟩, rfl⟩
    · rintro _ g' _ ⟨hall, hadds⟩
      refine .pure ⟨hof.symm, ?_, ?_⟩
      · rintro index ⟨_, ⟨set', hset', rule, hrule, hindex⟩, hnone⟩
        cases hset.symm.trans hset'
        exact hall rule hrule index hindex hnone
      · rw [Modelled, hof]
        exact ⟨set, hset, hadds⟩
  · rename_i hnone
    split
    · rename_i source result hsource hresult
      have hof : t.modelOf s.call = .sourceCorrelation := by simp [Setting.modelOf, hmodel, hnone, hsource, hresult]
      refine .bind (ends_applySource_adds hphase hg result source) fun _ g' _ hadds => .pure ?_
      refine ⟨hof.symm, hfits (by simp [hof]), ?_⟩
      rw [Modelled, hof]
      exact ⟨source, result, hsource, hresult, hadds⟩
    · rename_i hother
      have hof : t.modelOf s.call = .heuristic := by
        cases hsource : t.rules.source? s.call.signature with
        | none => simp [Setting.modelOf, hmodel, hnone, hsource]
        | some source =>
            cases hresult : s.call.result with
            | none => simp [Setting.modelOf, hmodel, hnone, hresult]
            | some slot => exact absurd hresult (hother source slot hsource)
      refine .bind (ends_applyHeuristic_adds hphase hg) fun _ g' _ hadds => .pure ?_
      refine ⟨hof.symm, hfits (by simp [hof]), ?_⟩
      rw [Modelled, hof]
      exact hadds

theorem ends_model_adds (hphase : g.phase = .building) (hg : g.WellFormed) :
    FlowGraph.building.Ends g (s.model t) (s.Models t g)
      (fun e => ∃ index, t.Misses s.call index ∧ e = .unresolvedOperand s.call.signature index s.call.uses.length) := by
  unfold model
  dsimp only
  split
  · rename_i hclass
    refine .bind (ends_modelStringBuilder_between hphase hg hclass) ?_
    rintro _ g₁ hl₁ (⟨rfl, hmodel, hadds⟩ | ⟨rfl, hmodel, rfl⟩)
    · have hof : t.modelOf s.call = .stringBuilder := by simp [Setting.modelOf, hmodel]
      refine .pure ⟨hof.symm, fun index hmisses => ?_, ?_⟩
      · cases hof.symm.trans hmisses.model
      · rw [Modelled, hof]
        exact hadds
    · exact ends_modelByRules_adds hphase hg hmodel
  · rename_i hclass
    exact ends_modelByRules_adds hphase hg fun hmodel => hclass hmodel.1

/-- A value that gets a node while a call is modelled gets it with the literal that the program gives the value. -/
theorem literal_of_model (t : Setting) (s : CallSite) (g : FlowGraph) {n : NodeId} {q : ProcedureId} {slot : ValueSlot}
    {l : Option Literal} (hn : ((s.model t).runOn g).2.kind? n = some (.value q slot l)) :
    g.kind? n = some (.value q slot l) ∨ l = t.program.literal? q slot := by
  let C : Course GraphTables :=
    { leads := fun g g' => ∀ n q slot l, g'.kind? n = some (.value q slot l) →
        g.kind? n = some (.value q slot l) ∨ l = t.program.literal? q slot
      refl := fun _ _ _ _ _ => .inl
      trans := fun h h' n q slot l hn => (h' n q slot l hn).elim (h n q slot l) .inr }
  refine (s.performs_model t).leads (C := C) (fun op hop g g' hg n q slot l hn => ?_) g n q slot l hn
  have hbuilds : op.Builds t.program := hop.imp_right fun hchains => .inr (.inl hchains)
  exact (kind?_perform hbuilds hg hn).imp_right (literal_of_makes hbuilds)

/-- Modelling a call takes the first model that applies. It fails just if this is that of rules and one of them names an
operand that the call lacks, and says so. Otherwise it takes nothing back, the values that the model relates have nodes,
new ones with the literals that the program gives, and a sensitive result has a new stand-in. Exactly the constraints
between these are added that were not there before, but for those of a node with itself. -/
theorem model_exact (t : Setting) (s : CallSite) {g : FlowGraph} (hphase : g.phase = .building) (hg : g.Consistent) :
    (∃ g', (s.model t).runOn g = (.ok (t.modelOf s.call), g') ∧ (∀ index, ¬ t.Misses s.call index) ∧ g.Extends g' ∧
      s.Modelled t g g' ∧ ∀ n q slot l, g'.kind? n = some (.value q slot l) →
        g.kind? n = some (.value q slot l) ∨ l = t.program.literal? q slot) ∨
    ∃ index g', (s.model t).runOn g =
        (.error (.unresolvedOperand s.call.signature index s.call.uses.length), g') ∧ t.Misses s.call index := by
  have hends := ends_model_adds (s := s) (t := t) hphase (hg.wellFormed (by simp [hphase]))
  have hliteral := @literal_of_model t s g
  rcases hrun : (s.model t).runOn g with ⟨r, g'⟩
  rw [hrun] at hliteral
  cases r with
  | ok model =>
      obtain ⟨hl, hmodels⟩ := hends.of_ok hrun
      refine .inl ⟨g', ?_, hmodels.fits, hl.1, hmodels.adds, fun _ _ _ _ => hliteral⟩
      rw [hmodels.model]
  | error e =>
      obtain ⟨index, hmisses, rfl⟩ := hends.of_error hrun
      exact .inr ⟨index, g', rfl, hmisses⟩

/-- A graph that is being built, in which an argument of the following call knows a text already. -/
def suppliedGraph : FlowGraph :=
  .after 0
    [.beginBuilding, .valueNode 0 3 none, .valueNode 0 2 (some (.text "k")), .addConstraint 0 .ge 1 []]

/-- A call that passes a text, a value and its own receiver. -/
def formatSite : CallSite := ⟨0, ⟨0, 7⟩, ⟨⟨"app.Text.format(Ljava/lang/String;)V"⟩, false, [1, 2, 3, 1], none, true⟩⟩

theorem formatSite_exact :
    let t : Setting := ⟨GraphDocument.program {}, {}, {}⟩
    suppliedGraph.phase = .building ∧ suppliedGraph.Consistent ∧
      ∃ g', (formatSite.model t).runOn suppliedGraph = (.ok .heuristic, g') ∧
        g'.keys = suppliedGraph.keys ++ [(2, .ge, 1), (2, .ge, 0)] ∧ g'.valueNode? 0 1 = some 2 ∧
        formatSite.Modelled t suppliedGraph g' := by
  intro t
  have hconsistent : suppliedGraph.Consistent := ((living_run _ _).2 (wellFormed_new 0)).consistent suppliedGraph.inStep
  have hgraph : ((formatSite.model t).runOn suppliedGraph).2.keys = suppliedGraph.keys ++ [(2, .ge, 1), (2, .ge, 0)] ∧
      ((formatSite.model t).runOn suppliedGraph).2.valueNode? 0 1 = some 2 := by decide +kernel
  refine ⟨rfl, hconsistent, ?_⟩
  rcases model_exact t formatSite rfl hconsistent with ⟨g', hrun, _, _, hmodelled, _⟩ | ⟨_, _, _, hmisses⟩
  · rw [hrun] at hgraph
    exact ⟨g', hrun, hgraph.1, hgraph.2, hmodelled⟩
  · exact absurd hmisses.model (by decide)

end CallSite

end SinkFlow
