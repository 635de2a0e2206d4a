import SinkFlow.Proofs.Analysis.Clearing
import SinkFlow.Proofs.Build.Effects
import SinkFlow.Proofs.Build.Log

/-!
Which sinks an analysis finds: one for each call that can be reached and that a sink definition is for, however many
runs come to it. The nodes that are marked are the operands of these sinks. No later stage lists or marks any other
ones, or takes the record of one away.
-/

namespace SinkFlow

/-! ## Calls of sinks -/

/-- The call at a statement, with its procedure and the definition that says what the call leaks. -/
def Setting.leaking? (t : Setting) (id : StatementId) : Option (ProcedureId × Invoke × SinkDefinition) :=
  match t.program.statement? id with
  | some ⟨_, q, .normal (.invoke call)⟩ => (t.rules.sink? call.signature).map (q, call, ·)
  | _ => none

theorem Setting.isSome_of_leaking? {t : Setting} {id : StatementId} (h : (t.leaking? id).isSome) :
    (t.program.statement? id).isSome := by
  cases hstatement : t.program.statement? id with
  | none => simp [Setting.leaking?, hstatement] at h
  | some statement => rfl

namespace GraphTables

variable {g g' : GraphTables} {t : Setting} {q : ProcedureId} {call : Invoke} {sink : SinkDefinition} {id : StatementId}
  {n : NodeId}

/-- The node of an operand of a call. -/
def operandNode? (g : GraphTables) (q : ProcedureId) (call : Invoke) (index : Int) : Option NodeId :=
  (call.operand index).bind (g.valueNode? q)

/-- The site of a call of a sink: the nodes of its leaked operands are in the order of the definition, each once. -/
def siteOf (g : GraphTables) (q : ProcedureId) (id : StatementId) (call : Invoke) (sink : SinkDefinition) : SinkSite where
  entrypoint := g.entrypoint
  procedure := q
  statement := id
  signature := call.signature
  tag := sink.tag
  arguments := (sink.arguments.filterMap (g.operandNode? q call)).eraseDups

/-- The site of a statement that is a call of a sink. -/
def site? (t : Setting) (g : GraphTables) (id : StatementId) : Option SinkSite :=
  (t.leaking? id).map fun l => g.siteOf l.1 id l.2.1 l.2.2

theorem Extends.operandNode? {index : Int} (h : Extends g g') (hn : g.operandNode? q call index = some n) :
    g'.operandNode? q call index = some n := by
  obtain ⟨slot, hslot, hn⟩ := Option.bind_eq_some_iff.mp hn
  rw [GraphTables.operandNode?, hslot]
  exact h.values q slot n hn

theorem Extends.siteOf (h : Extends g g') (hresolved : ∀ index ∈ sink.arguments, (g.operandNode? q call index).isSome)
    (id : StatementId) :
    g'.siteOf q id call sink = g.siteOf q id call sink := by
  have hsame : ∀ index ∈ sink.arguments, g'.operandNode? q call index = g.operandNode? q call index := by
    intro index hindex
    obtain ⟨n, hn⟩ := Option.isSome_iff_exists.mp (hresolved index hindex)
    rw [hn, h.operandNode? hn]
  simp only [GraphTables.siteOf, h.entrypoint, List.filterMap_congr hsame]

/-! ## Courses of a build -/

/-- The course on which graphs are extended. -/
def extending : Course GraphTables := ⟨Extends, .refl, .trans⟩

/-- The course of operations that leave sinks alone. -/
def unmarked : Course GraphTables where
  leads g g' := Extends g g' ∧ g'.sinks = g.sinks ∧ ∀ n, g'.isSpecial n = g.isSpecial n
  refl g := ⟨.refl g, rfl, fun _ => rfl⟩
  trans h h' := ⟨h.1.trans h'.1, h'.2.1.trans h.2.1, fun n => (h'.2.2 n).trans (h.2.2 n)⟩

theorem unmarked_perform {op : Operation} (hop : op.Draws t.program ∨ op.Views ∨ op.Chains)
    (hg : g.perform op = .ok g') : unmarked.leads g g' := by
  have hbuilds : op.Builds t.program := hop.imp_right fun hop => hop.imp_right .inl
  exact ⟨extends_perform hbuilds hg, sinks_perform hop hg, isSpecial_perform hop hg⟩

theorem isSpecial_markSpecial (hg : g.markSpecial n = .ok g') (m : NodeId) :
    g'.isSpecial m ↔ g.isSpecial m ∨ m = n := by
  obtain ⟨hn, rfl⟩ := markSpecial_eq_ok_iff.mp hg
  simp only [isSpecial, node?, Array.getElem?_modify]
  obtain ⟨v, hv⟩ := Option.isSome_iff_exists.mp (node?_isSome_iff.mpr hn)
  have hv : g.nodes[n]? = some v := hv
  split
  · rename_i hm
    subst hm
    simp [hv]
  · rename_i hm
    simp [Ne.symm hm]

/-- Listing a sink changes only which sinks are listed, and lists no call twice. -/
theorem registerSink_eq (h : g.InStep) (site : SinkSite) :
    ∃ keys, (g.registerSink site).2 = { g with
      sinks := if site.key ∈ g.sinks.map SinkSite.key then g.sinks else g.sinks ++ [site], sinkKeys := keys } := by
  unfold registerSink
  simp only [h.sinkKeys]
  split
  · exact ⟨g.sinkKeys, rfl⟩
  · exact ⟨_, rfl⟩

/-- A call of a sink was listed, unless it was there, and its leaked operands were marked. -/
structure Lists (q : ProcedureId) (id : StatementId) (call : Invoke) (sink : SinkDefinition) (g g' : GraphTables) :
    Prop where
  resolved : ∀ index ∈ sink.arguments, (g'.operandNode? q call index).isSome
  sinks : g'.sinks = if (q, id) ∈ g.sinks.map SinkSite.key then g.sinks else g.sinks ++ [g'.siteOf q id call sink]
  marked : ∀ n, g'.isSpecial n ↔ g.isSpecial n ∨ n ∈ (g'.siteOf q id call sink).arguments

/-- At most one call of a sink was listed, this one. -/
def ListsOnly (id : StatementId) (l : Option (ProcedureId × Invoke × SinkDefinition)) (g g' : GraphTables) : Prop :=
  match l with
  | some (q, call, sink) => Lists q id call sink g g'
  | none => g'.sinks = g.sinks ∧ ∀ n, g'.isSpecial n = g.isSpecial n

theorem ListsOnly.unmarked {l : Option (ProcedureId × Invoke × SinkDefinition)} {g₁ : GraphTables}
    (h : ListsOnly id l g g₁) (hl : unmarked.leads g₁ g') : ListsOnly id l g g' := by
  obtain ⟨hext, hsinks, hspecial⟩ := hl
  cases l with
  | none => exact ⟨hsinks.trans h.1, fun n => (hspecial n).trans (h.2 n)⟩
  | some l =>
      have hsite := hext.siteOf h.resolved id
      refine ⟨fun index hindex => ?_, ?_, fun n => ?_⟩
      · obtain ⟨n, hn⟩ := Option.isSome_iff_exists.mp (h.resolved index hindex)
        exact Option.isSome_of_eq_some (hext.operandNode? hn)
      · rw [hsinks, hsite]
        exact h.sinks
      · rw [hspecial n, hsite]
        exact h.marked n

end GraphTables

open GraphTables

variable {t : Setting} {g : FlowGraph} {α : Type}

theorem Edit.ends_unmarked {x : Edit α} (h : Edit.Performs (fun op => op.Draws t.program ∨ op.Views ∨ op.Chains) x) :
    (unmarked.along FlowGraph.toGraphTables).Ends g x (fun _ _ => True) fun _ => True :=
  h.ends (fun _ hop _ _ hg => unmarked_perform hop hg) g

namespace CallSite

variable {s : CallSite}

theorem ends_operandNode_unmarked (index : Int) :
    (unmarked.along FlowGraph.toGraphTables).Ends g (s.operandNode t.program index)
      (fun n (g' : FlowGraph) => g'.operandNode? s.procedure s.call index = some n) fun _ => True := by
  unfold operandNode
  split
  · rename_i slot hslot
    have hvalue := unmarked_perform (t := t) (g := g.toGraphTables) (.inl (.value s.procedure slot)) rfl
    refine Edit.ends_change hvalue ?_
    rw [GraphTables.operandNode?, hslot]
    exact valueNode?_valueNode g _ _ _
  · exact .throw trivial

/-- The operands of a sink are marked, and their nodes are listed in order, each once. -/
theorem ends_markOperands_listed (indices : List Int) (ns : List NodeId) :
    (extending.along FlowGraph.toGraphTables).Ends g (s.markOperands t.program indices ns.eraseDups)
      (fun arguments (g' : FlowGraph) => (∀ index ∈ indices, (g'.operandNode? s.procedure s.call index).isSome) ∧
        arguments = (ns ++ indices.filterMap (g'.operandNode? s.procedure s.call)).eraseDups ∧ g'.sinks = g.sinks ∧
        ∀ n, g'.isSpecial n ↔ g.isSpecial n ∨ n ∈ indices.filterMap (g'.operandNode? s.procedure s.call))
      fun _ => True := by
  induction indices generalizing g ns with
  | nil => exact .pure ⟨nofun, by simp, rfl, by simp⟩
  | cons index indices ih =>
      have hoperand := (ends_operandNode_unmarked (s := s) (t := t) (g := g) index).mono (D := extending.along FlowGraph.toGraphTables)
        (fun _ hl => hl.1) (fun _ _ hl hn => And.intro hl.2 hn) fun _ he => he
      refine .bind hoperand ?_
      rintro n g₁ - ⟨⟨hsinks₁, hspecial₁⟩, hn⟩
      refine .bind (Q := fun _ (g₂ : FlowGraph) => g₂.sinks = g₁.sinks ∧ ∀ m, g₂.isSpecial m ↔ g₁.isSpecial m ∨ m = n)
        (Edit.ends_of_attempt fun _ g₂ hmark => ?_) ?_
      · obtain ⟨_, hmark, heq⟩ := exists_of_map_eq_ok hmark
        cases heq
        have hmark := FlowGraph.updated_eq_ok_iff.mp hmark
        have hsinks : g₂.sinks = g₁.sinks := by rw [(markSpecial_eq_ok_iff.mp hmark).2]
        exact ⟨extends_markSpecial hmark, hsinks, isSpecial_markSpecial hmark⟩
      · rintro _ g₂ hl₂ ⟨hsinks₂, hspecial₂⟩
        rw [addOnce_eraseDups]
        refine (ih (ns ++ [n])).imp ?_
        rintro arguments g₃ hl₃ ⟨hresolved, harguments, hsinks₃, hspecial₃⟩
        have hn := hl₃.operandNode? (hl₂.operandNode? hn)
        rw [List.filterMap_cons_some hn]
        refine ⟨List.forall_mem_cons.mpr ⟨Option.isSome_of_eq_some hn, hresolved⟩, ?_, ?_, fun m => ?_⟩
        · rw [harguments, List.append_assoc, List.singleton_append]
        · rw [hsinks₃, hsinks₂, hsinks₁]
        · rw [hspecial₃, hspecial₂, hspecial₁, List.mem_cons, or_assoc]

theorem ends_checkSink_listed :
    (extending.along FlowGraph.toGraphTables).Ends g (s.checkSink t)
      (fun _ g' => ListsOnly s.here.statement
        ((t.rules.sink? s.call.signature).map (s.procedure, s.call, ·)) g g') fun _ => True := by
  unfold checkSink
  split
  · rename_i hnone
    rw [hnone]
    exact .pure ⟨rfl, fun _ => rfl⟩
  · rename_i sink hsink
    rw [hsink]
    refine .bind (ends_markOperands_listed sink.arguments []) ?_
    rintro arguments g₁ hl₁ ⟨hresolved, rfl, hsinks, hspecial⟩
    refine Edit.ends_change (extends_registerSink g₁ _) ?_
    have hsite : g₁.siteOf s.procedure s.here.statement s.call sink =
        ⟨g₁.entrypoint, s.procedure, s.here.statement, s.call.signature, sink.tag,
          ([] ++ sink.arguments.filterMap (g₁.operandNode? s.procedure s.call)).eraseDups⟩ := rfl
    rw [← hsite]
    obtain ⟨keys, hregister⟩ := registerSink_eq g₁.inStep (g₁.siteOf s.procedure s.here.statement s.call sink)
    have hkey : (g₁.siteOf s.procedure s.here.statement s.call sink).key = (s.procedure, s.here.statement) := rfl
    show Lists _ _ _ _ g.toGraphTables (g₁.toGraphTables.registerSink _).2
    rw [hregister, hkey, hsinks]
    refine ⟨hresolved, rfl, fun n => ?_⟩
    refine (hspecial n).trans (or_congr_right ?_)
    exact List.mem_eraseDups.symm

end CallSite

/-! ## Statements -/

namespace Build

variable {s s' : BuildState} {id : StatementId} {statement : Statement}

theorem ends_visitCall_listed (site : CallSite) :
    (extending.along (·.graph.toGraphTables)).Ends s (visitCall t site)
      (fun _ s' => ListsOnly site.here.statement
        ((t.rules.sink? site.call.signature).map (site.procedure, site.call, ·)) s.graph s'.graph) fun _ => True := by
  unfold visitCall
  refine .bind (ends_edit_along CallSite.ends_checkSink_listed) fun _ s₁ hl₁ hlists => ?_
  split
  · have hperforms := (site.performs_model t).mono (B := fun op => op.Draws t.program ∨ op.Views ∨ op.Chains)
      fun _ => .imp_right .inr
    have hmodel := (Edit.ends_unmarked (g := s₁.graph) hperforms).mono (D := extending.along FlowGraph.toGraphTables)
      (fun _ hl => hl.1) (fun _ _ hl _ => hl) fun _ he => he
    refine .bind (ends_edit_along hmodel) fun model s₂ _ hl₂ => ?_
    exact .modify (extending.refl _) (hlists.unmarked hl₂)
  · exact .pure hlists

/-- A statement is listed if it is a call of a sink, and leaves sinks alone if it is none. -/
theorem lists_visit (hstatement : t.program.statement? id = some statement)
    (hrun : (visit t statement).run s = (.ok (), s')) :
    s.graph.Extends s'.graph ∧ ListsOnly id (t.leaking? id) s.graph s'.graph := by
  obtain ⟨k, q, kind⟩ := statement
  have hid : k = id := t.program.id_of_statement? hstatement
  subst hid
  have hother : kind.Performs t.program = (fun op => op.Draws t.program ∨ op.Views) → t.leaking? k = none →
      s.graph.Extends s'.graph ∧ ListsOnly k (t.leaking? k) s.graph s'.graph := by
    intro hkind hnone
    have hperforms := performs_visit t ⟨k, q, kind⟩
    simp only [hkind] at hperforms
    have hl := hperforms.leads (C := unmarked)
      (fun op hop g g' hg => unmarked_perform (hop.imp_right .inl) hg) s
    rw [hrun] at hl
    rw [hnone]
    exact hl
  cases kind with
  | normal instruction =>
      cases instruction with
      | invoke call =>
          have hvisit : (extending.along (·.graph.toGraphTables)).Ends s (visit t ⟨k, q, .normal (.invoke call)⟩) _ _ :=
            .get_bind (ends_visitCall_listed ⟨q, ⟨s.graph.entrypoint, k⟩, call⟩)
          rw [Setting.leaking?, hstatement]
          exact hvisit.of_ok hrun
      | _ => exact hother rfl (by rw [Setting.leaking?, hstatement])
  | _ => exact hother rfl (by rw [Setting.leaking?, hstatement])

end Build

/-! ## Whole builds -/

namespace FlowGraph

variable {g' : FlowGraph} {log : List StatementId} {id : StatementId}

/-- The sinks of a graph are the sites of the statements that were handled, and its marked nodes are their operands. -/
structure Discovered (t : Setting) (log : List StatementId) (g : FlowGraph) : Prop where
  resolved : ∀ id ∈ log, ∀ q call sink, t.leaking? id = some (q, call, sink) →
    ∀ index ∈ sink.arguments, (g.operandNode? q call index).isSome
  sites : ∀ site, site ∈ g.sinks ↔ ∃ id ∈ log, site? t g id = some site
  once : (g.sinks.map SinkSite.statement).Nodup
  marked : ∀ n, g.isSpecial n ↔ ∃ site ∈ g.sinks, n ∈ site.arguments

theorem statement_of_site? {site : SinkSite} (h : site? t g id = some site) : site.statement = id := by
  obtain ⟨l, _, rfl⟩ := Option.map_eq_some_iff.mp h
  rfl

theorem Discovered.site?_of_extends (h : g.Discovered t log) (hext : Extends g g') (hid : id ∈ log) :
    site? t g' id = site? t g id := by
  unfold site?
  cases hl : t.leaking? id with
  | none => rfl
  | some l => exact congrArg some (hext.siteOf (h.resolved id hid l.1 l.2.1 l.2.2 hl) id)

/-- A call is among the sinks just if it was handled before. -/
theorem Discovered.listed_iff (h : g.Discovered t log) {q : ProcedureId} {call : Invoke} {sink : SinkDefinition}
    (hl : t.leaking? id = some (q, call, sink)) : (q, id) ∈ g.sinks.map SinkSite.key ↔ id ∈ log := by
  rw [List.mem_map]
  constructor
  · rintro ⟨site, hsite, hkey⟩
    obtain ⟨k, hk, hsite⟩ := (h.sites site).mp hsite
    have hid : id = k := (congrArg Prod.snd hkey).symm.trans (statement_of_site? hsite)
    exact hid ▸ hk
  · intro hid
    refine ⟨g.siteOf q id call sink, (h.sites _).mpr ⟨id, hid, ?_⟩, rfl⟩
    rw [site?, hl, Option.map_some]

theorem Discovered.step (h : g.Discovered t log) (hext : Extends g g') (hlists : ListsOnly id (t.leaking? id) g g') :
    g'.Discovered t (id :: log) := by
  have hsame : ∀ k ∈ log, site? t g' k = site? t g k := fun k hk => h.site?_of_extends hext hk
  have hsites : ∀ site, site ∈ g.sinks ↔ ∃ k ∈ log, site? t g' k = some site := by
    intro site
    rw [h.sites]
    exact exists_congr fun k => and_congr_right fun hk => by rw [hsame k hk]
  have hresolved : ∀ k ∈ log, ∀ q call sink, t.leaking? k = some (q, call, sink) →
      ∀ index ∈ sink.arguments, (g'.operandNode? q call index).isSome := by
    intro k hk q call sink hl index hindex
    obtain ⟨n, hn⟩ := Option.isSome_iff_exists.mp (h.resolved k hk q call sink hl index hindex)
    exact Option.isSome_of_eq_some (hext.operandNode? hn)
  cases hl : t.leaking? id with
  | none =>
      rw [hl] at hlists
      obtain ⟨hsinks, hspecial⟩ := hlists
      have hnone : site? t g' id = none := by rw [site?, hl, Option.map_none]
      refine ⟨List.forall_mem_cons.mpr ⟨by simp [hl], hresolved⟩, fun site => ?_, hsinks ▸ h.once, fun n => ?_⟩
      · simp [hsinks, hsites, hnone]
      · rw [hspecial, hsinks]
        exact h.marked n
  | some l =>
      obtain ⟨q, call, sink⟩ := l
      rw [hl] at hlists
      obtain ⟨hoperands, hsinks, hspecial⟩ := hlists
      have hsite : site? t g' id = some (g'.siteOf q id call sink) := by rw [site?, hl, Option.map_some]
      have hmem : ∀ site, site ∈ g'.sinks ↔ site ∈ g.sinks ∨ site = g'.siteOf q id call sink := by
        intro site
        rw [hsinks]
        split
        · rename_i hthere
          refine ⟨.inl, fun hs => hs.elim (fun hs => hs) ?_⟩
          rintro rfl
          exact (hsites _).mpr ⟨id, (h.listed_iff hl).mp hthere, hsite⟩
        · rw [List.mem_append, List.mem_singleton]
      refine ⟨List.forall_mem_cons.mpr ⟨fun q' call' sink' hl' => ?_, hresolved⟩, fun site => ?_, ?_, fun n => ?_⟩
      · cases hl.symm.trans hl'
        exact hoperands
      · simp only [List.mem_cons, or_and_right, exists_or, exists_eq_left, hsite, Option.some.injEq, hmem, hsites]
        rw [or_comm, eq_comm]
      · rw [hsinks]
        split
        · exact h.once
        · rename_i hnew
          rw [List.map_append, List.map_singleton, ← List.concat_eq_append]
          refine h.once.concat fun hmem => ?_
          obtain ⟨site, hs, heq⟩ := List.mem_map.mp hmem
          have heq : site.statement = id := heq
          obtain ⟨k, hk, hsite'⟩ := (h.sites site).mp hs
          have hk : id ∈ log := by rwa [← heq, statement_of_site? hsite']
          exact hnew ((h.listed_iff hl).mpr hk)
      · rw [hspecial, h.marked]
        simp only [hmem, or_and_right, exists_or, exists_eq_left]

theorem discovered_build {e : EntrypointId} {cancelled : Bool} {stats : BuildStats}
    (hok : (({ entrypoint := e } : FlowGraph).build t cancelled).result = .ok stats) :
    (({ entrypoint := e } : FlowGraph).build t cancelled).graph.Discovered t
      (({ entrypoint := e } : FlowGraph).handledBy t cancelled) := by
  refine build_logged (I := fun log g => g.Discovered t log) ⟨nofun, by simp, .nil, fun n => ?_⟩ ?_ hok
  · simp [isSpecial, node?]
  · intro id statement log s s' hstatement hdiscovered hrun
    obtain ⟨hext, hlists⟩ := Build.lists_visit hstatement hrun
    exact hdiscovered.step hext hlists

/-! ## Later stages -/

/-- A stage keeps the sinks and which nodes they leak, and what is known at these nodes. -/
structure KeepsSinks (g g' : FlowGraph) : Prop where
  sinks : g'.sinks = g.sinks
  special : ∀ n, g'.isSpecial n = g.isSpecial n
  records : ∀ n r, g.isSpecial n → g.record? n = some r → ∃ r', g'.record? n = some r' ∧ r.facts ⊆ r'.facts

theorem Grows.keepsSinks (h : Grows g g') (phase : Phase) : KeepsSinks g (g'.inPhase phase) where
  sinks := h.shape.sinks
  special n := congrArg (Option.any Node.special) (h.shape.node? n)
  records n r _ hr := by
    obtain ⟨r', hr'⟩ := Option.isSome_iff_exists.mp (h.records n (Option.isSome_of_eq_some hr))
    have hfacts := h.facts n
    rw [factsAt_of_record? hr, factsAt_of_record? hr'] at hfacts
    exact ⟨r', hr', hfacts⟩

theorem keepsSinks_cleared (g : FlowGraph) : KeepsSinks g g.cleared where
  sinks := rfl
  special _ := rfl
  records n r hn hr := by
    have hkept : g.isKept n := isKept_of_special hn
    refine ⟨r.stripped, ?_, fun _ hi => hi⟩
    rw [record?_cleared hkept, hr, Option.map_some]

/-- After a build that is not stopped there is one sink for each call that can be reached and that a sink definition is
for; it lists the nodes of the operands that the definition names, in that order and each once. The nodes that are
marked are those that some sink lists. Every later stage succeeds, and keeps the sinks, the marks and what is known at
the marked nodes. -/
theorem sinks_exact {e : EntrypointId} {t : Setting} {cancelled : Bool} {stats : BuildStats}
    (hok : (({ entrypoint := e } : FlowGraph).build t cancelled).result = .ok stats)
    (hrunning : stats.cancelled = false) :
    let g := (({ entrypoint := e } : FlowGraph).build t cancelled).graph
    (∀ id q call sink, t.program.Reaches id → t.leaking? id = some (q, call, sink) →
      ∀ index ∈ sink.arguments, ∃ n, g.operandNode? q call index = some n) ∧
    (∀ site, site ∈ g.sinks ↔ ∃ id, t.program.Reaches id ∧ site? t g id = some site) ∧
    (g.sinks.map SinkSite.statement).Nodup ∧ (∀ n, g.isSpecial n ↔ ∃ site ∈ g.sinks, n ∈ site.arguments) ∧
    ∀ p cap, ∃ fields collected counts propagated,
      g.collectFields p = (.ok fields, collected) ∧ collected.propagate cap = .ok (counts, propagated) ∧
        propagated.clear = .ok propagated.cleared ∧ g.KeepsSinks collected ∧ collected.KeepsSinks propagated ∧
        propagated.KeepsSinks propagated.cleared := by
  intro g
  have hdiscovered : g.Discovered t _ := discovered_build hok
  have hhandled : ∀ id, (t.leaking? id).isSome →
      (t.program.Reaches id ↔ id ∈ ({ entrypoint := e } : FlowGraph).handledBy t cancelled) := fun id hl =>
    (and_iff_left (Setting.isSome_of_leaking? hl)).symm.trans (mem_handledBy_iff hok hrunning id).symm
  refine ⟨fun id q call sink hreach hl index hindex => ?_, fun site => ?_, hdiscovered.once, hdiscovered.marked,
    fun p cap => ?_⟩
  · have hid := (hhandled id (Option.isSome_of_eq_some hl)).mp hreach
    exact Option.isSome_iff_exists.mp (hdiscovered.resolved id hid q call sink hl index hindex)
  · refine (hdiscovered.sites site).trans (exists_congr fun id => and_congr_left fun hsite => ?_)
    obtain ⟨l, hl, _⟩ := Option.map_eq_some_iff.mp hsite
    exact (hhandled id (Option.isSome_of_eq_some hl)).symm
  · have hsound : g.Sound t := by
      rcases build_cases e t cancelled with ⟨_, _, hsound, _⟩ | ⟨err, herror, _⟩
      · exact hsound
      · cases hok.symm.trans herror
    obtain ⟨fields, counts, _, hfinish, _⟩ :=
      Analysis.finish_eq_ok hsound { t.config with maxWorklistIterations := cap } p
    obtain ⟨collected, propagated, hcollect, hprop, _⟩ := Analysis.finish_eq_ok_iff.mp hfinish
    obtain ⟨_, _, hpropagated⟩ := propagate_eq_ok_iff.mp hprop
    refine ⟨fields, collected, counts, propagated, hcollect, hprop, clear_eq_cleared (by rw [hpropagated, phase_inPhase]), ?_, ?_,
      keepsSinks_cleared propagated⟩
    · rw [collectFields_eq hcollect]
      exact (grows_note g _).keepsSinks _
    · rw [hpropagated]
      exact (Propagation.grows_complete cap collected).keepsSinks _

/-- A program in which two roots lead to a call with a body that passes one value twice. Another call of the same method
is on a cycle that no root leads to. -/
def sharedSinkProgram : Program := GraphDocument.program
  { statements :=
      [⟨0, 0, .normal .other⟩, ⟨1, 0, .normal .other⟩,
        ⟨2, 0, .normal (.invoke ⟨Analysis.sendMethod, true, [7, 8, 7], none, false⟩)⟩, ⟨3, 0, .normal .other⟩,
        ⟨4, 0, .normal (.invoke ⟨Analysis.sendMethod, true, [9, 9, 9], none, false⟩)⟩]
    edges := [(0, 2), (1, 2), (2, 3), (4, 4)] }

/-- The settings of an analysis of the program, in which the method leaks its operands, last one first. -/
def sharedSinkSetting : Setting where
  program := sharedSinkProgram
  config := {}
  rules := { sinks := Table.empty.insert Analysis.sendMethod ⟨"net", Analysis.sendMethod, [2, 1, 0]⟩ }

theorem sharedSinkSetting_build :
    (∃ stats, (({ entrypoint := 0 } : FlowGraph).build sharedSinkSetting false).result = .ok stats ∧
      stats.cancelled = false) ∧
    (({ entrypoint := 0 } : FlowGraph).build sharedSinkSetting false).graph.sinks =
      [⟨0, 0, 2, Analysis.sendMethod, "net", [0, 1]⟩] := by
  refine ⟨BuildOutcome.exists_running ?_, ?_⟩
  · decide +kernel
  · decide +kernel

theorem sharedSinkSetting_exact :
    let g := (({ entrypoint := 0 } : FlowGraph).build sharedSinkSetting false).graph
    (∃ stats, (({ entrypoint := 0 } : FlowGraph).build sharedSinkSetting false).result = .ok stats ∧
      stats.cancelled = false) ∧
    g.sinks = [⟨0, 0, 2, Analysis.sendMethod, "net", [0, 1]⟩] ∧ (∀ n, g.isSpecial n ↔ n = 0 ∨ n = 1) ∧
    sharedSinkProgram.Reaches 2 ∧ ¬ sharedSinkProgram.Reaches 4 := by
  dsimp only
  obtain ⟨⟨stats, hok, hrunning⟩, hsinks⟩ := sharedSinkSetting_build
  obtain ⟨_, hsites, _, hmarked, _⟩ := sinks_exact hok hrunning
  simp only [hsinks, List.mem_singleton] at hsites hmarked
  refine ⟨⟨stats, hok, hrunning⟩, hsinks, fun n => by simp [hmarked], ?_, fun hreach => ?_⟩
  · obtain ⟨id, hreach, hsite⟩ := (hsites _).mp rfl
    have hid : 2 = id := statement_of_site? hsite
    exact hid ▸ hreach
  · have hleaks : (sharedSinkSetting.leaking? 4).isSome := by decide +kernel
    obtain ⟨l, hl⟩ := Option.isSome_iff_exists.mp hleaks
    have hsite := (hsites _).mpr ⟨4, hreach, congrArg (Option.map _) hl⟩
    have hid : (4 : StatementId) = 2 := congrArg SinkSite.statement hsite
    exact absurd hid (by decide)

end FlowGraph

end SinkFlow
