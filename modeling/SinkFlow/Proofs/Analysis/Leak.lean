import SinkFlow.Proofs.Analysis.Refusal
import SinkFlow.Proofs.Analysis.Saturation
import SinkFlow.Proofs.Search.Finding

/-!
No leak is missed. What copies carry from a literal to an operand that a sink leaks is reported, and so is what goes
from one entrypoint to another through a field. The rest of the program and of the registry does not matter.
-/

namespace SinkFlow

/-! ## Flows in a program -/

namespace Program

/-- Copies that can be reached carry what a value of a procedure holds into another one. No value but the first is a
literal. -/
inductive Carries (p : Program) (q : ProcedureId) : ValueSlot → ValueSlot → Prop where
  | refl (slot : ValueSlot) : p.Carries q slot slot
  | copy {source middle target : ValueSlot} {id : StatementId} {kind : StatementKind} (h : p.Carries q source middle)
      (hruns : p.Runs q id kind) (hcopies : kind.Copies target middle) (hopen : p.literal? q target = none) :
      p.Carries q source target

/-- A statement is a call of a sink that leaks a value. -/
def Leaks (p : Program) (rules : RuleTables) (q : ProcedureId) (id : StatementId) (slot : ValueSlot) : Prop :=
  ∃ call sink index, p.Runs q id (.normal (.invoke call)) ∧ rules.sink? call.signature = some sink ∧
    index ∈ sink.arguments ∧ call.operand index = some slot

/-- A value is stored in a field of any object, or in a static one. -/
def Writes (p : Program) (q : ProcedureId) (value : ValueSlot) (field : FieldSignature) : Prop :=
  ∃ id object, p.Runs q id (.normal (.putField object value field))

/-- A value is loaded from a field of any object, or from a static one. -/
def Reads (p : Program) (q : ProcedureId) (target : ValueSlot) (field : FieldSignature) : Prop :=
  ∃ id object, p.Runs q id (.normal (.getField target object field))

end Program

/-! ## The stages of an analysis -/

namespace GraphTables

variable {t : Setting} {built g : GraphTables} {q : ProcedureId} {slot : ValueSlot} {n : NodeId}

theorem Sound.literal_value (h : Sound t built) (hn : built.valueNode? q slot = some n) :
    (built.node? n).bind Node.literal? = t.program.literal? q slot := by
  obtain ⟨v, hv, hkind⟩ := h.values q slot n hn
  simp [hv, Node.literal?, hkind, NodeKind.literal?]

theorem Sound.isOpen_value (h : Sound t built) (hn : built.valueNode? q slot = some n)
    (hl : t.program.literal? q slot = none) : built.isOpen n := by
  obtain ⟨v, hv, hkind⟩ := h.values q slot n hn
  simp [isOpen, hv, Node.isConstant, Node.literal?, hkind, NodeKind.literal?, hl]

theorem isOpen_of_isField (h : (g.node? n).any Node.isField) : g.isOpen n := by
  obtain ⟨v, hv, hfield⟩ := (Option.any_eq_true _ _).mp h
  cases hk : v.kind <;>
    simp_all [isOpen, Node.isField, Node.isConstant, Node.literal?, NodeKind.field?, NodeKind.literal?]

theorem isKept_of_isField (h : (g.node? n).any Node.isField) : g.isKept n := by
  obtain ⟨v, hv, hfield⟩ := (Option.any_eq_true _ _).mp h
  simp [isKept, hv, Node.isRetained, hfield]

theorem isKept_of_special (h : (g.node? n).any Node.special) : g.isKept n := by
  obtain ⟨v, hv, hspecial⟩ := (Option.any_eq_true _ _).mp h
  simp [isKept, hv, Node.isRetained, hspecial]

end GraphTables

namespace FlowGraph

open GraphTables (isOpen_of_isField isKept_of_isField isKept_of_special node?_isSome_iff outgoingViews)

variable {t : Setting} {e : EntrypointId} {built g registered : FlowGraph} {q : ProcedureId} {slot : ValueSlot}
  {n : NodeId} {i : Item}

/-- The graphs of an analysis that was not asked to stop and had no limit: as it was built, when all was known, and as
it was registered. -/
structure Stages (t : Setting) (e : EntrypointId) (built g registered : FlowGraph) : Prop where
  sound : GraphTables.Sound t built
  entrypoint : built.entrypoint = e
  handled : ∀ q id kind, t.program.Runs q id kind → built.Handled t ⟨id, q, kind⟩
  saturated : Saturated built g
  cleared : g.clear = .ok registered

/-- The node of a value knows an item. -/
def ValueKnows (built g : FlowGraph) (q : ProcedureId) (slot : ValueSlot) (i : Item) : Prop :=
  ∀ n, built.valueNode? q slot = some n → (g.factsAt n).has i

namespace Stages

variable (h : Stages t e built g registered)

include h

theorem knows_literal {l : Literal} (hl : t.program.literal? q slot = some l) :
    ValueKnows built g q slot l.item :=
  fun n hn => h.saturated.literals n l ((h.sound.literal_value hn).trans hl)

theorem knows_field {field : FieldSignature} (hreads : t.program.Reads q slot field)
    (hopen : t.program.literal? q slot = none) : ValueKnows built g q slot (.inputField field) := by
  intro n hn
  obtain ⟨id, object, hruns⟩ := hreads
  obtain ⟨n', view, hview, hn', _, hrelated⟩ := (h.handled q id _ hruns).reads slot object field rfl
  cases hn.symm.trans hn'
  have hknown := h.saturated.fields field view hview (h.sound.incoming field view hview).node?_isSome
  exact h.saturated.related hrelated (h.sound.isOpen_value hn hopen) _ hknown

/-- Copies carry on what is known. -/
theorem knows_carried {source target : ValueSlot} (hcarries : t.program.Carries q source target)
    (hsource : ValueKnows built g q source i) : ValueKnows built g q target i := by
  induction hcarries with
  | refl => exact hsource
  | copy _ hruns hcopies hopen ih =>
      intro n hn
      obtain ⟨kind, hrelates⟩ := hcopies.relates
      obtain ⟨n', m, hn', hm, hrelated⟩ := (h.handled q _ _ hruns).relates _ kind _ hrelates
      cases hn.symm.trans hn'
      exact h.saturated.related hrelated (h.sound.isOpen_value hn hopen) i (ih m hm)

/-- A view that writes a field knows what the stored value knows, also in the end. -/
theorem written {field : FieldSignature} (hwrites : t.program.Writes q slot field)
    (hknows : ValueKnows built g q slot i) :
    ∃ view ∈ registered.outgoingViews field, ∃ r, registered.record? view = some r ∧ r.facts.has i := by
  obtain ⟨id, object, hruns⟩ := hwrites
  obtain ⟨n, view, hview, hn, _, hrelated⟩ := (h.handled q id _ hruns).writes object slot field rfl
  have hfield := (h.sound.outgoing field view hview).isField
  have hknown := h.saturated.related hrelated (isOpen_of_isField hfield) i (hknows n hn)
  refine ⟨view, ?_, h.saturated.record_clear h.cleared (isKept_of_isField hfield) hknown⟩
  obtain ⟨_, hregistered⟩ := clear_eq_ok_iff.mp h.cleared
  rw [hregistered]
  have houtgoing : g.cleared.outgoing = built.outgoing := h.saturated.shape.outgoing
  simpa only [outgoingViews, houtgoing] using hview

theorem node?_registered (hn : (built.node? n).isSome) : n < registered.nodes.size := by
  have hg : (g.node? n).isSome := (h.saturated.shape.node?_isSome n).trans hn
  obtain ⟨_, hregistered⟩ := clear_eq_ok_iff.mp h.cleared
  rw [hregistered]
  exact node?_isSome_iff.mp hg

theorem sinks : registered.sinks = built.sinks := by
  obtain ⟨_, hregistered⟩ := clear_eq_ok_iff.mp h.cleared
  rw [hregistered]
  exact h.saturated.shape.sinks

/-- A sink that leaks a value is listed, and one of its operands knows in the end what the value knows. -/
theorem leaked {id : StatementId} (hleaks : t.program.Leaks t.rules q id slot)
    (hknows : ValueKnows built g q slot i) :
    (∃ site ∈ registered.sinks, site.procedure = q ∧ site.statement = id) ∧
      ∀ site ∈ registered.sinks, site.procedure = q → site.statement = id →
        site.entrypoint = e ∧ (∀ n ∈ site.arguments, n < registered.nodes.size) ∧
          ∃ n ∈ site.arguments, ∃ r, registered.record? n = some r ∧ r.facts.has i := by
  obtain ⟨call, sink, index, hruns, hsink, hindex, hoperand⟩ := hleaks
  rw [h.sinks]
  refine ⟨(h.handled q id _ hruns).sinks call sink rfl hsink, ?_⟩
  rintro site hsite rfl rfl
  have hof := h.sound.sinks site hsite
  obtain ⟨n, hn, hvalue⟩ := hof.operands _ call sink hruns.2 rfl hsink index hindex slot hoperand
  refine ⟨hof.entrypoint.trans h.entrypoint, fun m hm => ?_, n, hn, ?_⟩
  · exact h.node?_registered (Option.isSome_of_any (hof.marked m hm))
  · exact h.saturated.record_clear h.cleared (isKept_of_special (hof.marked n hn)) (hknows n hvalue)

end Stages

end FlowGraph

/-! ## Reports -/

/-- A report lists a literal. -/
def SinkReport.Shows (r : SinkReport) : Literal → Prop
  | .text t => ∃ entry ∈ r.texts, entry.text = t
  | .constant c => c ∈ r.constants

theorem SinkReport.shows_ofFacts {site : SinkSite} {facts : Facts} {l : Literal} (h : facts.has l.item) :
    (SinkReport.ofFacts site facts).Shows l := by
  cases l with
  | text text =>
      obtain ⟨t, ht⟩ := Facts.trace?_of_has h
      exact ⟨⟨text, t⟩, List.mem_map.mpr ⟨(text, t), Facts.mem_texts.mpr ht, rfl⟩, rfl⟩
  | constant c => exact Facts.mem_constants.mpr h

theorem Search.isContent_literal (l : Literal) : isContent l.item = true := by
  cases l <;> rfl

namespace Analysis

variable {a : Analysis} {g : FlowGraph} {site : SinkSite}

theorem localFacts_eq_ok {ns : List NodeId} (known : Facts) (hthere : ∀ n ∈ ns, n < g.nodes.size) :
    ∃ facts, localFacts g ns known = .ok facts ∧ known ⊆ facts ∧
      ∀ n ∈ ns, (g.factsAt n).filter Search.isContent ⊆ facts := by
  induction ns generalizing known with
  | nil => exact ⟨known, rfl, fun _ hi => hi, nofun⟩
  | cons n ns ih =>
      obtain ⟨facts, hfacts, hknown, hall⟩ :=
        ih (known.merge ((g.factsAt n).filter Search.isContent) []) fun m hm => hthere m (List.mem_cons_of_mem n hm)
      refine ⟨facts, ?_, fun i hi => hknown i (by simp [hi]), fun m hm i hi => ?_⟩
      · simpa [localFacts, GraphTables.expectNode, hthere n List.mem_cons_self, bind, Except.bind] using hfacts
      · rcases List.mem_cons.mp hm with rfl | hm
        · exact hknown i (by rw [Facts.has_merge, hi, Bool.or_true])
        · exact hall m hm i hi

/-- What is known at an operand reaches its sink, and so does whatever a search from the operand is sure to find. -/
theorem reaching_eq_ok (hg : a.graphs.get? site.entrypoint = some g) (hthere : ∀ n ∈ site.arguments, n < g.nodes.size) :
    ∃ facts, a.reaching site = .ok facts ∧
      (∀ n ∈ site.arguments, (g.factsAt n).filter Search.isContent ⊆ facts) ∧
      ∀ n ∈ site.arguments, ∀ i,
        (∀ known, (a.graphs.search a.config.fieldSearchDepth site.entrypoint n .backward known).1.has i) →
          facts.has i := by
  obtain ⟨known, hlocal, _, hknown⟩ := localFacts_eq_ok .empty hthere
  refine ⟨_, by simp only [reaching, hg, hlocal, bind, Except.bind, pure, Except.pure]; rfl, ?_, ?_⟩
  · intro n hn i hi
    refine List.foldlRecOn (motive := fun facts : Facts => facts.has i) _ _ (hknown n hn i hi) ?_
    intro facts hfacts m _
    exact a.graphs.known_search _ _ _ _ _ i (a.graphs.known_search _ _ _ _ _ i hfacts)
  · intro n hn i hi
    let Q (n : NodeId) (facts : Facts) : Prop :=
      (∀ known, (a.graphs.search a.config.fieldSearchDepth site.entrypoint n .backward known).1.has i) → facts.has i
    refine foldl_reaches (Q := Q) ?_ ?_ _ known n hn hi
    · exact fun facts m hm => a.graphs.known_search _ _ _ _ _ i (hm facts)
    · exact fun facts m k hm hfound =>
        a.graphs.known_search _ _ _ _ _ i (a.graphs.known_search _ _ _ _ _ i (hm hfound))

theorem report_shows {facts : Facts} {l : Literal} (h : a.reaching site = .ok facts) (hl : facts.has l.item) :
    ∃ report, a.report site = .ok report ∧ report.Shows l :=
  ⟨SinkReport.ofFacts site facts, by simp [Analysis.report, h, bind, Except.bind, pure, Except.pure],
    SinkReport.shows_ofFacts hl⟩

/-- The sink at a statement of an entrypoint is registered, and the report on it lists a literal. -/
def Reports (a : Analysis) (e : EntrypointId) (q : ProcedureId) (id : StatementId) (l : Literal) : Prop :=
  ∃ g, a.graphs.get? e = some g ∧ (∃ site ∈ g.sinks, site.procedure = q ∧ site.statement = id) ∧
    ∀ site ∈ g.sinks, site.procedure = q → site.statement = id →
      ∃ report, a.report site = .ok report ∧ report.Shows l

section Reports

open FlowGraph

variable {t t' : Setting} {e e' : EntrypointId} {built built' g' registered registered' : FlowGraph}
  {q q' : ProcedureId} {slot slot' : ValueSlot} {id : StatementId} {l : Literal} {field : FieldSignature}

theorem reports_local (h : Stages t e built g registered) (hregistered : a.graphs.get? e = some registered)
    (hleaks : t.program.Leaks t.rules q id slot) (hknows : ValueKnows built g q slot l.item) : a.Reports e q id l := by
  obtain ⟨hlisted, hsites⟩ := h.leaked hleaks hknows
  refine ⟨registered, hregistered, hlisted, fun site hsite hq hid => ?_⟩
  obtain ⟨rfl, hthere, n, hn, r, hr, hi⟩ := hsites site hsite hq hid
  obtain ⟨facts, hfacts, hlocal, _⟩ := reaching_eq_ok hregistered hthere
  refine report_shows hfacts (hlocal n hn _ ?_)
  rw [GraphTables.factsAt_of_record? hr, Facts.has_filter, Search.isContent_literal, hi]
  rfl

/-- An operand that knows a field is searched from, through the field, into the views that write it. -/
theorem reports_remote (h : Stages t e built g registered) (h' : Stages t' e' built' g' registered')
    (hregistered : a.graphs.get? e = some registered) (hregistered' : a.graphs.get? e' = some registered')
    (hne : e' ≠ e) (hleaks : t.program.Leaks t.rules q id slot)
    (hdoor : ValueKnows built g q slot (.inputField field)) (hwrites : t'.program.Writes q' slot' field)
    (hknows : ValueKnows built' g' q' slot' l.item) : a.Reports e q id l := by
  obtain ⟨hlisted, hsites⟩ := h.leaked hleaks hdoor
  obtain ⟨view, hview, there, hthere, hl⟩ := h'.written hwrites hknows
  refine ⟨registered, hregistered, hlisted, fun site hsite hq hid => ?_⟩
  obtain ⟨rfl, hnodes, n, hn, here, hhere, hfield⟩ := hsites site hsite hq hid
  obtain ⟨facts, hfacts, _, hfound⟩ := reaching_eq_ok hregistered hnodes
  refine report_shows hfacts (hfound n hn _ fun known => ?_)
  obtain ⟨trace, htrace⟩ := Facts.trace?_of_has hfield
  have hdoor : (field, trace) ∈ Search.doors .backward here.facts := Facts.mem_inputFields.mpr htrace
  refine Registry.finds_search _ hregistered hhere hdoor hregistered' hne hview hthere _ ?_
  rw [Facts.has_filter, Search.isContent_literal, hl]
  rfl

end Reports

/-! ## Sessions -/

namespace Session

variable {s : Session} {config : Config} {rules : RuleTables} {requests : List Request} {e : EntrypointId} {p : Program}
  {g : FlowGraph}

/-- A program was analysed as an entrypoint, which was not refused, not asked to stop, and not dropped later on. -/
def Analysed (config : Config) (rules : RuleTables) (requests : List Request) (e : EntrypointId) (p : Program) : Prop :=
  ∃ before later stats, requests = before ++ .analyze e p :: later ∧ .reset ∉ later ∧
    let answer := (after config rules before).analysis.analyze e p
    answer.1 = .ok stats ∧ answer.2.cancelled = false

theorem settings_perform (s : Session) (request : Request) :
    (s.perform request).analysis.config = s.analysis.config ∧
      (s.perform request).analysis.rules = s.analysis.rules := by
  cases request with
  | cancel => exact ⟨rfl, rfl⟩
  | rearm => exact ⟨rfl, rfl⟩
  | reset => exact ⟨rfl, rfl⟩
  | analyze e p =>
      rcases analyze_cases s.analysis e p with ⟨_, he⟩ | ⟨_, he⟩ | ⟨_, _, _, _, _, _, _, he⟩ <;>
        simp only [perform, he, and_self]

theorem settings_after (config : Config) (rules : RuleTables) (requests : List Request) :
    (after config rules requests).analysis.config = config ∧ (after config rules requests).analysis.rules = rules := by
  refine List.foldlRecOn (motive := fun s : Session => s.analysis.config = config ∧ s.analysis.rules = rules)
    requests _ ⟨rfl, rfl⟩ fun s hs request _ => ?_
  obtain ⟨hconfig, hrules⟩ := settings_perform s request
  exact ⟨hconfig.trans hs.1, hrules.trans hs.2⟩

/-- A registered graph stays as it is until everything is dropped. -/
theorem registered_perform (h : s.analysis.graphs.get? e = some g) {request : Request} (hreset : request ≠ .reset) :
    (s.perform request).analysis.graphs.get? e = some g := by
  cases request with
  | cancel => exact h
  | rearm => exact h
  | reset => exact absurd rfl hreset
  | analyze e' p =>
      rcases analyze_cases s.analysis e' p with ⟨_, he⟩ | ⟨_, he⟩ | ⟨_, _, _, g', hnew, _, _, he⟩
      · simpa only [perform, he] using h
      · simpa only [perform, he] using h
      · simp only [perform, he, Table.get?_insert]
        split
        · rename_i hee
          subst hee
          have hregistered : s.analysis.graphs.contains e := by
            rw [Table.contains_iff, Table.mem_keys_iff, h]
            rfl
          rw [hregistered] at hnew
          cases hnew
        · exact h

theorem registered_run (h : s.analysis.graphs.get? e = some g) (hreset : .reset ∉ requests) :
    (s.run requests).analysis.graphs.get? e = some g := by
  refine List.foldlRecOn (motive := fun s : Session => s.analysis.graphs.get? e = some g) requests _ h ?_
  intro s hs request hrequest
  exact registered_perform hs fun he => hreset (he ▸ hrequest)

/-- Behind a registered graph of a program that was analysed are all stages of an analysis. -/
theorem Analysed.stages (hlimit : config.maxWorklistIterations = 0) (h : Analysed config rules requests e p) :
    ∃ built g registered, (after config rules requests).analysis.graphs.get? e = some registered ∧
      FlowGraph.Stages ⟨p, config, rules⟩ e built g registered := by
  obtain ⟨before, later, stats, rfl, hreset, hok, hrunning⟩ := h
  obtain ⟨hconfig, hrules⟩ := settings_after config rules before
  rcases analyze_cases (after config rules before).analysis e p with
    ⟨_, he⟩ | ⟨_, he⟩ | ⟨build, fields, propagation, registered, _, hbuild, hfinish, he⟩
  · rw [he] at hok
    cases hok
  · rw [he] at hok
    cases hok
  · have hregistered :
        ((after config rules before).perform (.analyze e p)).analysis.graphs.get? e = some registered := by
      simp only [perform, he, Table.get?_insert, if_true]
    have hafter : after config rules (before ++ .analyze e p :: later) =
        ((after config rules before).perform (.analyze e p)).run later := by
      simp only [after, run, List.foldl_append, List.foldl_cons]
    rw [he] at hrunning
    simp only [hconfig, hrules] at hbuild hfinish hrunning
    obtain ⟨g₁, g₂, hcollect, hprop, hclear⟩ := finish_eq_ok_iff.mp hfinish
    rw [hlimit] at hprop
    have hsaturated := FlowGraph.saturated_propagate (FlowGraph.drawn_build hbuild).blank hcollect hprop
    rcases FlowGraph.build_cases e ⟨p, config, rules⟩ (after config rules before).analysis.cancelled with
      ⟨_, _, hsound, hentrypoint, hhandled⟩ | ⟨err, herror, _⟩
    · refine ⟨_, g₂, registered, ?_, hsound, hentrypoint, (hhandled (.inl hrunning)).2, hsaturated, hclear⟩
      rw [hafter]
      exact registered_run hregistered hreset
    · rw [hbuild] at herror
      cases herror

end Session

/-! ## Leaks -/

section Leaks

variable {config : Config} {rules : RuleTables} {requests : List Request} {e e' : EntrypointId} {p p' : Program}
  {q q' : ProcedureId} {id : StatementId} {slot operand value target : ValueSlot} {l : Literal}
  {field : FieldSignature}

/-- A literal that copies carry to an operand which a sink leaks is reported, whatever else there is in the program
and in the registry. -/
theorem local_leak_reported (hlimit : config.maxWorklistIterations = 0)
    (hanalysed : Session.Analysed config rules requests e p) (hliteral : p.literal? q slot = some l)
    (hcarries : p.Carries q slot operand) (hleaks : p.Leaks rules q id operand) :
    (Session.after config rules requests).analysis.Reports e q id l := by
  obtain ⟨built, g, registered, hregistered, hstages⟩ := hanalysed.stages hlimit
  have hknows := hstages.knows_carried hcarries (hstages.knows_literal hliteral)
  exact reports_local hstages hregistered hleaks hknows

/-- A program that leaks the sum of a text and another value by way of a join. The call comes first. -/
def joiningProgram : Program := GraphDocument.program
  { statements :=
      [⟨5, 0, .normal (.invoke ⟨sendMethod, true, [3], none, true⟩)⟩, ⟨6, 0, .phi 3 [none, some 2]⟩,
        ⟨7, 0, .normal (.binaryOp 2 0 1)⟩]
    edges := [(5, 6), (6, 7)]
    literals := [⟨0, 0, .text "secret"⟩] }

theorem joiningProgram_carries : joiningProgram.Carries 0 0 3 := by
  have hcall : joiningProgram.Reaches 5 := .root (by decide +kernel)
  have hjoin : joiningProgram.Runs 0 6 (.phi 3 [none, some 2]) :=
    ⟨.edge hcall (by decide +kernel) (by decide +kernel), by decide +kernel⟩
  have hsum : joiningProgram.Runs 0 7 (.normal (.binaryOp 2 0 1)) :=
    ⟨.edge hjoin.1 (by decide +kernel) (by decide +kernel), by decide +kernel⟩
  have hcarries : joiningProgram.Carries 0 0 2 := .copy (.refl 0) hsum (.left 2 0 1) rfl
  exact .copy hcarries hjoin (.phi 3 [none, some 2] 2 (by decide)) rfl

theorem joiningProgram_leak_reported :
    Session.Analysed {} sendRules [.analyze 0 joiningProgram] 0 joiningProgram ∧
      (Session.after {} sendRules [.analyze 0 joiningProgram]).analysis.Reports 0 0 5 (.text "secret") := by
  have hok : (({ config := {}, rules := sendRules } : Analysis).analyze 0 joiningProgram).1.toOption.isSome := by
    decide +kernel
  obtain ⟨stats, hok⟩ := Option.isSome_iff_exists.mp hok
  have hanalysed : Session.Analysed {} sendRules [.analyze 0 joiningProgram] 0 joiningProgram :=
    ⟨[], [], stats, rfl, by simp, eq_ok_of_toOption hok, by decide +kernel⟩
  have hleaks : joiningProgram.Leaks sendRules 0 5 3 :=
    ⟨⟨sendMethod, true, [3], none, true⟩, ⟨"net", sendMethod, [0]⟩, 0,
      ⟨.root (by decide +kernel), by decide +kernel⟩, rfl, by decide, rfl⟩
  exact ⟨hanalysed, local_leak_reported rfl hanalysed rfl joiningProgram_carries hleaks⟩

/-- A literal that one entrypoint carries to a field, and another one from the field to an operand which a sink leaks,
is reported there, whatever the depth of the search. -/
theorem crossing_leak_reported (hlimit : config.maxWorklistIterations = 0) (hne : e ≠ e')
    (hanalysed : Session.Analysed config rules requests e p) (hliteral : p.literal? q slot = some l)
    (hcarries : p.Carries q slot value) (hwrites : p.Writes q value field)
    (hanalysed' : Session.Analysed config rules requests e' p') (hreads : p'.Reads q' target field)
    (hopen : p'.literal? q' target = none) (hcarries' : p'.Carries q' target operand)
    (hleaks : p'.Leaks rules q' id operand) :
    (Session.after config rules requests).analysis.Reports e' q' id l := by
  obtain ⟨built, g, registered, hregistered, hstages⟩ := hanalysed.stages hlimit
  obtain ⟨built', g', registered', hregistered', hstages'⟩ := hanalysed'.stages hlimit
  have hdoor := hstages'.knows_carried hcarries' (hstages'.knows_field hreads hopen)
  have hknows := hstages.knows_carried hcarries (hstages.knows_literal hliteral)
  exact reports_remote hstages' hstages hregistered' hregistered hne hleaks hdoor hwrites hknows

/-- A program that stores the cast of a text in the field of an object. The store comes first. -/
def castingProgram : Program := GraphDocument.program
  { statements := [⟨1, 0, .normal (.putField (some 9) 1 sharedField)⟩, ⟨2, 0, .normal (.checkCast 1 0)⟩]
    edges := [(1, 2)]
    literals := [⟨0, 0, .text "secret"⟩] }

/-- The program that reads the field is analysed first, and once more in vain at the end. -/
def crossingRequests : List Request :=
  [.analyze 1 sendingProgram, .analyze 0 castingProgram, .analyze 0 sendingProgram]

theorem crossingRequests_leak_reported :
    Session.Analysed {} sendRules crossingRequests 0 castingProgram ∧
      Session.Analysed {} sendRules crossingRequests 1 sendingProgram ∧
      (Session.after {} sendRules crossingRequests).analysis.Reports 1 0 6 (.text "secret") := by
  have hsending : (({ config := {}, rules := sendRules } : Analysis).analyze 1 sendingProgram).1.toOption.isSome := by
    decide +kernel
  have hcasting : ((Session.after {} sendRules [.analyze 1 sendingProgram]).analysis.analyze 0
      castingProgram).1.toOption.isSome := by
    decide +kernel
  obtain ⟨stats, hsending⟩ := Option.isSome_iff_exists.mp hsending
  obtain ⟨stats', hcasting⟩ := Option.isSome_iff_exists.mp hcasting
  have hsending : Session.Analysed {} sendRules crossingRequests 1 sendingProgram :=
    ⟨[], [.analyze 0 castingProgram, .analyze 0 sendingProgram], stats, rfl, by simp, eq_ok_of_toOption hsending,
      by decide +kernel⟩
  have hcasting : Session.Analysed {} sendRules crossingRequests 0 castingProgram :=
    ⟨[.analyze 1 sendingProgram], [.analyze 0 sendingProgram], stats', rfl, by simp, eq_ok_of_toOption hcasting,
      by decide +kernel⟩
  have hput : castingProgram.Reaches 1 := .root (by decide +kernel)
  have hcast : castingProgram.Runs 0 2 (.normal (.checkCast 1 0)) :=
    ⟨.edge hput (by decide +kernel) (by decide +kernel), by decide +kernel⟩
  have hcarries : castingProgram.Carries 0 0 1 := .copy (.refl 0) hcast (.cast 1 0) rfl
  have hget : sendingProgram.Reaches 5 := .root (by decide +kernel)
  have hleaks : sendingProgram.Leaks sendRules 0 6 0 :=
    ⟨⟨sendMethod, true, [0], none, true⟩, ⟨"net", sendMethod, [0]⟩, 0,
      ⟨.edge hget (by decide +kernel) (by decide +kernel), by decide +kernel⟩, rfl, by decide, rfl⟩
  have hwrites : castingProgram.Writes 0 1 sharedField := ⟨1, some 9, hput, by decide +kernel⟩
  have hreads : sendingProgram.Reads 0 0 sharedField := ⟨5, none, hget, by decide +kernel⟩
  exact ⟨hcasting, hsending, crossing_leak_reported rfl (by decide) hcasting rfl hcarries hwrites hsending hreads rfl
    (.refl 0) hleaks⟩

end Leaks

end Analysis

end SinkFlow
