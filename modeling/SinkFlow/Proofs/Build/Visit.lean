import SinkFlow.Proofs.Build.Operands

/-!
What one statement leaves in the graph. A copy leaves a constraint between the nodes of two values, an access to a
field leaves a view that is listed under the field, and a call of a sink leaves a site. The only failure is a call
that is refused.
-/

namespace SinkFlow

/-- A statement copies what a value of its procedure holds into another one. -/
inductive StatementKind.Copies : StatementKind → ValueSlot → ValueSlot → Prop where
  | cast (target value : ValueSlot) : Copies (.normal (.checkCast target value)) target value
  | load (target array : ValueSlot) : Copies (.normal (.arrayLoad target array)) target array
  | store (array value : ValueSlot) : Copies (.normal (.arrayStore array value)) array value
  | left (target left right : ValueSlot) : Copies (.normal (.binaryOp target left right)) target left
  | right (target left right : ValueSlot) : Copies (.normal (.binaryOp target left right)) target right
  | phi (target : ValueSlot) (operands : List (Option ValueSlot)) (operand : ValueSlot) (h : some operand ∈ operands) :
      Copies (.phi target operands) target operand

theorem StatementKind.Copies.relates {st : StatementKind} {target source : ValueSlot} (h : st.Copies target source) :
    ∃ kind, st.Relates target kind source := by
  cases h with
  | cast => exact ⟨_, .cast⟩
  | load => exact ⟨_, .load⟩
  | store => exact ⟨_, .store⟩
  | left => exact ⟨_, .left⟩
  | right => exact ⟨_, .right⟩
  | phi _ _ _ h => exact ⟨_, .phi h⟩

/-- A statement that neither accesses a field nor calls a method. -/
def StatementKind.isPlain : StatementKind → Bool
  | .normal (.getField _ _ _) | .normal (.putField _ _ _) | .normal (.invoke _) => false
  | _ => true

/-- A statement that neither relates values of its procedure nor accesses a field nor calls a method. -/
def StatementKind.isSilent : StatementKind → Bool
  | .phi _ _ => false
  | .normal (.return _) | .normal (.new _) | .normal (.instanceOf _ _) | .normal .other => true
  | .normal _ => false
  | _ => true

theorem StatementKind.isPlain_of_isSilent {st : StatementKind} (h : st.isSilent) : st.isPlain := by
  cases st with
  | normal instruction => cases instruction <;> first | rfl | cases h
  | _ => rfl

theorem StatementKind.not_relates {st : StatementKind} {target source : ValueSlot} {kind : ConstraintKind}
    (h : st.isSilent) : ¬ st.Relates target kind source := by
  intro hrelates
  cases hrelates <;> cases h

namespace FlowGraph

/-- The nodes of two values of a procedure are related. -/
def Linked (g : FlowGraph) (q : ProcedureId) (target : ValueSlot) (kind : ConstraintKind) (source : ValueSlot) : Prop :=
  ∃ n m, g.valueNode? q target = some n ∧ g.valueNode? q source = some m ∧ g.Related n kind m

/-- The node of a value of a procedure is to know what another node knows, and the other way round. -/
def Equates (g : FlowGraph) (q : ProcedureId) (slot : ValueSlot) (m : NodeId) : Prop :=
  ∃ n, g.valueNode? q slot = some n ∧ g.Related n .eq m

/-- What a statement leaves in the graph of its program. -/
structure Handled (t : Setting) (statement : Statement) (g : FlowGraph) : Prop where
  relates : ∀ target kind source, statement.kind.Relates target kind source →
    g.Linked statement.procedure target kind source
  reads : ∀ target object field, statement.kind = .normal (.getField target object field) →
    ∃ n, ∃ view ∈ g.incomingViews field, g.valueNode? statement.procedure target = some n ∧
      g.IsView statement.procedure object field view ∧ g.Related n .eq view
  writes : ∀ object value field, statement.kind = .normal (.putField object value field) →
    ∃ n, ∃ view ∈ g.outgoingViews field, g.valueNode? statement.procedure value = some n ∧
      g.IsView statement.procedure object field view ∧ g.Related view .eq n
  accesses : ∀ access, statement.kind.access? = some access → (g.accesses.get? statement.id).isSome
  accepts : ∀ call index, statement.kind = .normal (.invoke call) → ¬ t.Unresolved statement.id call index
  sinks : ∀ call sink, statement.kind = .normal (.invoke call) → t.rules.sink? call.signature = some sink →
    ∃ site ∈ g.sinks, site.procedure = statement.procedure ∧ site.statement = statement.id

variable {g g' : FlowGraph} {t : Setting} {statement : Statement}

theorem Linked.mono {q : ProcedureId} {target source : ValueSlot} {kind : ConstraintKind} (h : g.Extends g')
    (hl : g.Linked q target kind source) : g'.Linked q target kind source := by
  obtain ⟨n, m, hn, hm, hr⟩ := hl
  exact ⟨n, m, h.values _ _ _ hn, h.values _ _ _ hm, hr.mono h⟩

theorem Equates.mono {q : ProcedureId} {slot : ValueSlot} {m : NodeId} (h : g.Extends g') (he : g.Equates q slot m) :
    g'.Equates q slot m := by
  obtain ⟨n, hn, hr⟩ := he
  exact ⟨n, h.values _ _ _ hn, hr.mono h⟩

theorem Handled.of_isPlain (hplain : statement.kind.isPlain)
    (hrelates : ∀ target kind source, statement.kind.Relates target kind source →
      g.Linked statement.procedure target kind source) : g.Handled t statement where
  relates := hrelates
  reads _ _ _ hk := by simp [hk, StatementKind.isPlain] at hplain
  writes _ _ _ hk := by simp [hk, StatementKind.isPlain] at hplain
  accesses access hk := by
    unfold StatementKind.access? at hk
    split at hk <;> simp_all [StatementKind.isPlain]
  accepts _ _ hk := by simp [hk, StatementKind.isPlain] at hplain
  sinks _ _ hk := by simp [hk, StatementKind.isPlain] at hplain

theorem Handled.of_isSilent (hsilent : statement.kind.isSilent) : g.Handled t statement :=
  .of_isPlain (StatementKind.isPlain_of_isSilent hsilent) fun _ _ _ hrelates =>
    absurd hrelates (StatementKind.not_relates hsilent)

theorem Handled.mono (h : g.Extends g') (hs : g.Handled t statement) : g'.Handled t statement where
  relates target kind source hr := (hs.relates target kind source hr).mono h
  reads target object field hk := by
    obtain ⟨n, view, hlisted, hn, hview, hr⟩ := hs.reads target object field hk
    exact ⟨n, view, h.incoming field hlisted, h.values _ _ _ hn, hview.mono h, hr.mono h⟩
  writes object value field hk := by
    obtain ⟨n, view, hlisted, hn, hview, hr⟩ := hs.writes object value field hk
    exact ⟨n, view, h.outgoing field hlisted, h.values _ _ _ hn, hview.mono h, hr.mono h⟩
  accesses access hk := h.accesses _ (hs.accesses access hk)
  accepts := hs.accepts
  sinks call sink hk hsink := by
    obtain ⟨site, hsite, hq, hid⟩ := hs.sinks call sink hk hsink
    exact ⟨site, h.sinks hsite, hq, hid⟩

end FlowGraph

/-! ## What a run remembers -/

/-- A remembered parameter was passed to a callee at a position. -/
def Pairing.Passed (t : Setting) (g : FlowGraph) (k : ProcedureId × UInt64) (a : NodeId × StatementRef) : Prop :=
  ∃ caller slot, a.2.Names t g caller (.paramCaller k.1 k.2 slot) ∧ g.valueNode? caller slot = some a.1

/-- A remembered result was returned by a procedure. -/
def Pairing.Returned (t : Setting) (g : FlowGraph) (q : ProcedureId) (a : NodeId × StatementRef) : Prop :=
  ∃ st slot, a.2.Names t g q st ∧ st.returned? = some slot ∧ g.valueNode? q slot = some a.1

/-- Everything that a run remembers still means what it meant when it was remembered. -/
structure Pairing.Sound (t : Setting) (g : FlowGraph) (p : Pairing) : Prop where
  parameters : ∀ k, ∀ a ∈ (p.parameters.get? k).getD [], Passed t g k a
  returns : ∀ q a, p.returns.get? q = some a → Returned t g q a
  views : ∀ field, ∀ n ∈ (p.views.get? field).getD [], g.Shows n field

theorem Pairing.sound_empty (t : Setting) (g : FlowGraph) : Pairing.Sound t g {} := ⟨nofun, nofun, nofun⟩

theorem Pairing.Sound.mono {t : Setting} {g g' : FlowGraph} {p : Pairing} (h : g.Extends g') (hp : p.Sound t g) :
    p.Sound t g' where
  parameters k a ha := by
    obtain ⟨caller, slot, hnames, hn⟩ := hp.parameters k a ha
    exact ⟨caller, slot, hnames.mono h, h.values _ _ _ hn⟩
  returns q a ha := by
    obtain ⟨st, slot, hnames, hslot, hn⟩ := hp.returns q a ha
    exact ⟨st, slot, hnames.mono h, hslot, h.values _ _ _ hn⟩
  views field n hn := (hp.views field n hn).mono h

/-- The state of a build whose graph is sound, and so is what the run remembers. -/
structure BuildState.Sound (t : Setting) (s : BuildState) : Prop where
  graph : s.graph.Sound t
  pairing : s.pairing.Sound t s.graph

namespace Build

/-- What a statement does to the state: it extends the graph and does not count arrivals. -/
structure Visits (t : Setting) (s s' : BuildState) : Prop where
  graph : s.graph.Extends s'.graph
  sound : s.Sound t → s'.Sound t
  gate : s'.gate = s.gate
  handled : s'.handled = s.handled
  cancelled : s'.cancelled = s.cancelled

def visiting (t : Setting) : Course BuildState where
  leads := Visits t
  refl _ := ⟨.refl _, id, rfl, rfl, rfl⟩
  trans h h' := ⟨h.graph.trans h'.graph, h'.sound ∘ h.sound, h'.gate.trans h.gate, h'.handled.trans h.handled,
    h'.cancelled.trans h.cancelled⟩

variable {α : Type} {t : Setting} {s : BuildState} {E : AnalysisError → Prop} {q : ProcedureId} {here : StatementRef}

/-! ## Elementary steps -/

theorem run_edit {x : Edit α} {r : Except AnalysisError α} {g : FlowGraph} (h : x.run s.graph = (r, g)) :
    (edit x).run s = (r, { s with graph := g }) := by
  have h : x.runOn s.graph = (r, g) := h
  simp only [edit, ExceptT.run, ExceptT.mk, h]

/-- An edit of the graph leaves what the run remembers as it is. -/
theorem ends_edit_only {x : Edit α} {Q : α → FlowGraph → Prop} (h : (FlowGraph.drawing t).Ends s.graph x Q E) :
    (visiting t).Ends s (edit x) (fun a s' => s'.pairing = s.pairing ∧ Q a s'.graph) E := by
  rcases hx : x.run s.graph with ⟨r, g⟩
  have hrun := run_edit hx
  cases r with
  | error e =>
      have he := h.of_error hx
      simp only [Course.Ends, hrun]
      exact he
  | ok a =>
      obtain ⟨⟨hext, hsound⟩, hq⟩ := h.of_ok hx
      unfold Course.Ends
      rw [hrun]
      exact ⟨⟨hext, fun hs => ⟨hsound hs.graph, hs.pairing.mono hext⟩, rfl, rfl, rfl⟩, rfl, hq⟩

theorem ends_edit {x : Edit α} {Q : α → FlowGraph → Prop} (h : (FlowGraph.drawing t).Ends s.graph x Q E) :
    (visiting t).Ends s (edit x) (fun a s' => Q a s'.graph) E :=
  (ends_edit_only h).imp fun _ _ _ => And.right

theorem ends_count (f : BuildStats → BuildStats) :
    (visiting t).Ends s (count f) (fun _ s' => s'.pairing = s.pairing) E :=
  .modify ⟨.refl _, fun hs => ⟨hs.graph, hs.pairing⟩, rfl, rfl, rfl⟩ rfl

theorem ends_remember {f : Pairing → Pairing} {Q : Pairing → FlowGraph → Prop}
    (hsound : s.Sound t → (f s.pairing).Sound t s.graph) (hq : Q (f s.pairing) s.graph) :
    (visiting t).Ends s (remember f) (fun _ s' => Q s'.pairing s'.graph) E :=
  .modify ⟨.refl _, fun hs => ⟨hs.graph, hsound hs⟩, rfl, rfl, rfl⟩ hq

theorem ends_slotNode (q : ProcedureId) (slot : ValueSlot) :
    (visiting t).Ends s (edit (t.program.slotNode q slot))
      (fun n s' => s'.pairing = s.pairing ∧ s'.graph.valueNode? q slot = some n) E :=
  ends_edit_only (Program.ends_slotNode q slot)

theorem ends_relateSlots (hs : s.Sound t) {st : StatementKind} (hhere : here.Names t s.graph q st)
    {target source : ValueSlot} {kind : ConstraintKind} (hrelates : st.Relates target kind source) :
    (visiting t).Ends s (relateSlots t.program q target kind source [here])
      (fun _ s' => s'.graph.Linked q target kind source) E := by
  refine ends_edit (Q := fun _ g' => g'.Linked q target kind source) ?_
  refine .bind (Program.ends_slotNode q target) fun n g₁ hl₁ hn => ?_
  refine .bind (Program.ends_slotNode q source) fun m g₂ hl₂ hm => ?_
  have hn := hl₂.1.values _ _ _ hn
  have hhere := (hhere.mono hl₁.1).mono hl₂.1
  refine (Edit.ends_relateValues (hl₂.2 (hl₁.2 hs.graph)) hn hm (.values hhere hrelates hn hm)).imp ?_
  exact fun _ g₃ hl₃ hr => ⟨n, m, hl₃.1.values _ _ _ hn, hl₃.1.values _ _ _ hm, hr⟩

/-- Relating a view to the earlier ones of its field succeeds and takes nothing back. -/
theorem ends_unify {Q : FlowGraph → Prop} (hs : s.Sound t) {st : StatementKind} (hhere : here.Names t s.graph q st)
    {field : FieldSignature} (hfield : st.field? = some field) {view : NodeId} (hview : s.graph.Shows view field)
    (hq : ∀ g' : FlowGraph, s.graph.Extends g' → Q g') :
    (visiting t).Ends s (unify field view [here]) (fun _ s' => Q s'.graph) E := by
  refine .get_bind (.bind (.forM (Q := fun _ _ => True) (fun _ _ _ _ h => h) ?_) ?_)
  · intro n hn s₁ hl₁
    have hview := hview.mono hl₁.graph
    have hn := (hs.pairing.views field n hn).mono hl₁.graph
    refine (ends_edit (Edit.ends_relate (hl₁.sound hs).graph hview.node?_isSome hn.node?_isSome ?_)).imp
      fun _ _ _ _ => trivial
    exact .views (hhere.mono hl₁.graph) hfield hview hn
  · intro _ s₁ hl₁ _
    refine ends_remember (Q := fun _ => Q) (fun hs₁ => { hs₁.pairing with views := fun field' n hn => ?_ })
      (hq _ hl₁.graph)
    rw [Table.get?_insert] at hn
    split at hn
    · rename_i hsame
      rcases mem_addOnce.mp hn with hn | rfl
      · exact hsame ▸ (hs.pairing.views field n hn).mono hl₁.graph
      · exact hsame ▸ hview.mono hl₁.graph
    · exact hs₁.pairing.views field' n hn

theorem ends_newView (q : ProcedureId) (object : Option ValueSlot) (field : FieldSignature) :
    (visiting t).Ends s (newView q object field) (fun n s' => s'.graph.IsView q object field n) E := by
  refine ends_edit (Q := fun n g' => g'.IsView q object field n) ?_
  cases object with
  | none =>
      exact Edit.ends_change (GraphTables.leads_staticView _ q field) (GraphTables.kind?_staticView s.graph q field)
  | some o =>
      exact Edit.ends_change (GraphTables.leads_instanceView _ q o field)
        (GraphTables.kind?_instanceView s.graph q o field)

theorem ends_returned {st : StatementKind} (hhere : here.Names t s.graph q st) {slot : ValueSlot}
    (hslot : st.returned? = some slot) :
    (visiting t).Ends s (returned t.program q slot here)
      (fun _ s' => ∃ a, s'.pairing.returns.get? q = some a ∧ s'.graph.valueNode? q slot = some a.1) E := by
  refine .bind (ends_slotNode q slot) fun n s₁ hl₁ ⟨_, hn⟩ => ?_
  refine ends_remember (Q := fun r g' => ∃ a, r.returns.get? q = some a ∧ g'.valueNode? q slot = some a.1)
    (fun hs₁ => { hs₁.pairing with returns := fun q' a ha => ?_ }) ⟨(n, here), by simp [Table.get?_insert], hn⟩
  rw [Table.get?_insert] at ha
  split at ha
  · rename_i hq
    cases ha
    exact hq ▸ ⟨st, slot, hhere.mono hl₁.graph, hslot, hn⟩
  · exact hs₁.pairing.returns q' a ha

/-- An access to a field relates the node of a value to a new view, lists the view under the field and relates it to
the earlier ones. -/
theorem ends_access {st : StatementKind} {slot : ValueSlot} {object : Option ValueSlot} {field : FieldSignature}
    {R : NodeId → NodeId → FlowGraph → Prop} {Q : FlowGraph → Prop} (hs : s.Sound t)
    (hhere : here.Names t s.graph q st) (hfield : st.field? = some field)
    (relating : NodeId → NodeId → Edit Unit) (listing : NodeId → FlowGraph → FlowGraph)
    (hrelating : ∀ n view (g : FlowGraph), g.Sound t → s.graph.Extends g → g.valueNode? q slot = some n →
      g.IsView q object field view → (FlowGraph.drawing t).Ends g (relating n view) (fun _ => R n view) E)
    (hlisting : ∀ view (g : FlowGraph), g.Shows view field → (FlowGraph.drawing t).leads g (listing view g))
    (hq : ∀ n view (g g' : FlowGraph), R n view g → (listing view g).Extends g' → g.Extends g' →
      g'.valueNode? q slot = some n → g'.IsView q object field view → Q g') :
    (visiting t).Ends s (do
        let n ← edit (t.program.slotNode q slot)
        let view ← newView q object field
        edit (relating n view)
        edit (Edit.update (listing view))
        unify field view [here])
      (fun _ s' => Q s'.graph) E := by
  refine .bind (ends_slotNode q slot) fun n s₁ hl₁ ⟨_, hn⟩ => ?_
  refine .bind (ends_newView q object field) fun view s₂ hl₂ hview => ?_
  have hs₂ := hl₂.sound (hl₁.sound hs)
  have hn := hl₂.graph.values _ _ _ hn
  have hext₂ := hl₁.graph.trans hl₂.graph
  refine .bind (ends_edit (hrelating n view _ hs₂.graph hext₂ hn hview)) fun _ s₃ hl₃ hr => ?_
  have hview := hview.mono hl₃.graph
  have hlist := hlisting view s₃.graph hview.shows
  refine .bind (ends_edit (Q := fun _ g' => g' = listing view s₃.graph) (Edit.ends_change hlist rfl)) ?_
  intro _ s₄ hl₄ hlisted
  have hhere := ((hhere.mono hext₂).mono hl₃.graph).mono hl₄.graph
  refine ends_unify (hl₄.sound (hl₃.sound hs₂)) hhere hfield (hview.shows.mono hl₄.graph) fun g' hext => ?_
  have hext' := hl₄.graph.trans hext
  exact hq n view s₃.graph g' hr (hlisted ▸ hext) hext' (hext'.values _ _ _ (hl₃.graph.values _ _ _ hn))
    (hview.mono hext')

/-! ## Statements -/

/-- An error says that a statement is a call that lacks an operand. -/
def Refused (t : Setting) (statement : Statement) (e : AnalysisError) : Prop :=
  ∃ call, statement.kind = .normal (.invoke call) ∧ t.Refuses statement.id call e

theorem ends_visitCall {call : Invoke} (hs : s.Sound t) (hhere : here.Names t s.graph q (.normal (.invoke call))) :
    (visiting t).Ends s (visitCall t ⟨q, here, call⟩)
      (fun _ s' => s'.graph.Handled t ⟨here.statement, q, .normal (.invoke call)⟩)
      (t.Refuses here.statement call) := by
  unfold visitCall
  refine .bind (ends_edit (CallSite.ends_checkSink hs.graph hhere.runs.2)) fun _ s₁ hl₁ hsink => ?_
  have hhandled : ∀ g' : FlowGraph, s₁.graph.Extends g' → (∀ index, ¬ t.Unresolved here.statement call index) →
      g'.Handled t ⟨here.statement, q, .normal (.invoke call)⟩ := by
    intro g' hext haccepts
    refine ⟨nofun, nofun, nofun, nofun, ?_, ?_⟩
    · rintro _ index ⟨⟩
      exact haccepts index
    · rintro _ sink ⟨⟩ hdefinition
      obtain ⟨_, site, hsite, hq, hid⟩ := hsink sink hdefinition
      exact ⟨site, hext.sinks hsite, hq, hid⟩
  split
  · rename_i hapi
    have hcall : here.NamesCall t s₁.graph q call := ⟨hhere.mono hl₁.graph, hapi⟩
    refine .bind (ends_edit (CallSite.ends_model (hl₁.sound hs).graph hcall)) fun model s₂ hl₂ hrules => ?_
    refine (ends_count _).imp fun _ s₃ hl₃ _ => hhandled _ (hl₂.graph.trans hl₃.graph) fun index hun => ?_
    cases hun with
    | sink definition hdefinition hindex hoperand => exact (hsink definition hdefinition).1 index hindex hoperand
    | rule set rule _ hmodel hset hrule hindex hoperand => exact hrules hmodel set hset rule hrule index hindex hoperand
  · rename_i hapi
    have hbody : ¬ (call.library ∨ t.program.successors here.statement = []) := by simpa [isApiCall] using hapi
    refine .pure (hhandled _ (.refl _) fun index hun => ?_)
    cases hun with
    | sink definition hdefinition hindex hoperand => exact (hsink definition hdefinition).1 index hindex hoperand
    | rule set rule hapi => exact hbody hapi

theorem ends_visitInstruction {instruction : Instruction} (hs : s.Sound t)
    (hhere : here.Names t s.graph q (.normal instruction)) :
    (visiting t).Ends s (visitInstruction t q here instruction)
      (fun _ s' => s'.graph.Handled t ⟨here.statement, q, .normal instruction⟩)
      (Refused t ⟨here.statement, q, .normal instruction⟩) := by
  have haccess : ∀ access, StatementKind.access? (.normal instruction) = some access →
      (t.program.statement? here.statement).bind (·.kind.access?) = some access := by
    intro access ha
    rw [hhere.runs.2]
    exact ha
  cases instruction with
  | getField target object field =>
      refine ends_access (R := fun n view g => g.Related n .eq view) hs hhere rfl
        (fun n view => Edit.relate n .eq view [here])
        (fun view g => (g.registerIncoming field view).recordAccess here.statement ⟨field, .get⟩) ?_ ?_ ?_
      · intro n view g hg hext hn hview
        refine Edit.ends_relate hg (hg.node?_isSome hn) hview.shows.node?_isSome ?_
        exact .read (hhere.mono hext) hn hview
      · exact fun view g hview => (GraphTables.drawing t).trans (GraphTables.leads_registerIncoming field hview)
          (GraphTables.leads_recordAccess (haccess _ rfl))
      · intro n view g g' hr hlisted hext hn hview
        constructor
        case reads =>
          rintro _ _ _ ⟨⟩
          have hmem := hlisted.incoming field ((GraphTables.mem_listView _ _ _ _).mpr (.inr ⟨rfl, rfl⟩))
          exact ⟨n, view, hmem, hn, hview, hr.mono hext⟩
        case accesses =>
          exact fun _ _ => hlisted.accesses here.statement (GraphTables.accesses_recordAccess _ _ _)
        case relates | writes => rintro _ _ _ ⟨⟩
        case accepts | sinks => rintro _ _ ⟨⟩
  | putField object value field =>
      refine ends_access (R := fun n view g => g.Related view .eq n) hs hhere rfl
        (fun n view => Edit.relate view .eq n [here])
        (fun view g => (g.registerOutgoing field view).recordAccess here.statement ⟨field, .put⟩) ?_ ?_ ?_
      · intro n view g hg hext hn hview
        refine Edit.ends_relate hg hview.shows.node?_isSome (hg.node?_isSome hn) ?_
        exact .write (hhere.mono hext) hview hn
      · exact fun view g hview => (GraphTables.drawing t).trans (GraphTables.leads_registerOutgoing field hview)
          (GraphTables.leads_recordAccess (haccess _ rfl))
      · intro n view g g' hr hlisted hext hn hview
        constructor
        case writes =>
          rintro _ _ _ ⟨⟩
          have hmem := hlisted.outgoing field ((GraphTables.mem_listView _ _ _ _).mpr (.inr ⟨rfl, rfl⟩))
          exact ⟨n, view, hmem, hn, hview, hr.mono hext⟩
        case accesses =>
          exact fun _ _ => hlisted.accesses here.statement (GraphTables.accesses_recordAccess _ _ _)
        case relates | reads => rintro _ _ _ ⟨⟩
        case accepts | sinks => rintro _ _ ⟨⟩
  | checkCast target value =>
      refine (ends_relateSlots hs hhere .cast).imp fun _ s' _ hlinked => .of_isPlain rfl ?_
      rintro _ _ _ ⟨⟩
      exact hlinked
  | arrayLoad target array =>
      refine (ends_relateSlots hs hhere .load).imp fun _ s' _ hlinked => .of_isPlain rfl ?_
      rintro _ _ _ ⟨⟩
      exact hlinked
  | arrayStore array value =>
      refine (ends_relateSlots hs hhere .store).imp fun _ s' _ hlinked => .of_isPlain rfl ?_
      rintro _ _ _ ⟨⟩
      exact hlinked
  | binaryOp target left right =>
      refine .bind (ends_relateSlots hs hhere .left) fun _ s₁ hl₁ hleft => ?_
      refine (ends_relateSlots (hl₁.sound hs) (hhere.mono hl₁.graph) .right).imp fun _ s₂ hl₂ hright => ?_
      refine .of_isPlain rfl ?_
      rintro _ _ _ (_ | _)
      · exact hleft.mono hl₂.graph
      · exact hright
  | invoke call =>
      exact (ends_visitCall hs hhere).mono (fun _ hl => hl) (fun _ _ _ hh => hh) fun _ he => ⟨call, rfl, he⟩
  | «return» value =>
      cases value with
      | none => exact .pure (.of_isSilent rfl)
      | some value => exact (ends_returned hhere rfl).imp fun _ _ _ _ => .of_isSilent rfl
  | new _ | instanceOf _ _ | other => exact .pure (.of_isSilent rfl)

theorem ends_visitHeap (hs : s.Sound t) {st : StatementKind} (hhere : here.Names t s.graph q st)
    {location : HeapLocation} (hlocation : st.field? = location.staticField?) :
    (visiting t).Ends s (visitHeap t q here location) (fun _ _ => True) E := by
  unfold visitHeap
  split
  · exact .pure trivial
  · rename_i field hfield
    split
    · exact .pure trivial
    · refine .bind (ends_edit (Q := fun r g' => g'.IsView q none field r.1) (Edit.ends_change ?_ ?_)) ?_
      · exact GraphTables.leads_representative _ _ _
      · exact GraphTables.isView_representative hs.graph q field
      · intro r s₁ hl₁ hview
        have hhere := hhere.mono hl₁.graph
        exact ends_unify (Q := fun _ => True) (hl₁.sound hs) hhere (hlocation.trans hfield) hview.shows
          fun _ _ => trivial

theorem ends_visitPhi (hs : s.Sound t) {target : ValueSlot} {operands : List (Option ValueSlot)}
    (hhere : here.Names t s.graph q (.phi target operands)) :
    (visiting t).Ends s (visitPhi t.program q here target operands)
      (fun _ s' => ∀ operand, some operand ∈ operands → s'.graph.Linked q target .gePhi operand) E := by
  refine .bind (ends_slotNode q target) fun n s₁ hl₁ ⟨_, hn⟩ => ?_
  refine (Course.Ends.forM (Q := fun operand s' => s'.graph.Linked q target .gePhi operand)
    (fun _ _ _ hl hlinked => hlinked.mono hl.graph) fun operand hoperand s₂ hl₂ => ?_).imp
    fun _ s' _ hall operand hoperand => hall operand (by simpa using hoperand)
  have hoperand : some operand ∈ operands := by simpa using hoperand
  refine ends_edit (Q := fun _ g' => g'.Linked q target .gePhi operand) ?_
  refine .bind (Program.ends_slotNode q operand) fun m g₃ hl₃ hm => ?_
  have hext := (hl₁.graph.trans hl₂.graph).trans hl₃.1
  have hn := hl₃.1.values _ _ _ (hl₂.graph.values _ _ _ hn)
  refine (Edit.ends_relateValues (hl₃.2 (hl₂.sound (hl₁.sound hs)).graph) hn hm ?_).imp fun _ g₄ hl₄ hr => ?_
  · exact .values (hhere.mono hext) (.phi hoperand) hn hm
  · exact ⟨n, m, hl₄.1.values _ _ _ hn, hl₄.1.values _ _ _ hm, hr⟩

/-- A parameter that is passed on is remembered. -/
theorem ends_passed {callee : ProcedureId} {index : UInt64} {slot : ValueSlot}
    (hhere : here.Names t s.graph q (.paramCaller callee index slot)) :
    (visiting t).Ends s (do
        let actual ← edit (t.program.slotNode q slot)
        remember fun r =>
          let passed := (r.parameters.get? (callee, index)).getD []
          { r with parameters := r.parameters.insert (callee, index) (passed ++ [(actual, here)]) })
      (fun _ s' => ∃ a ∈ (s'.pairing.parameters.get? (callee, index)).getD [],
        s'.graph.valueNode? q slot = some a.1) E := by
  refine .bind (ends_slotNode q slot) fun actual s₁ hl₁ ⟨_, hactual⟩ => ?_
  refine ends_remember (Q := fun r g' => ∃ a ∈ (r.parameters.get? (callee, index)).getD [],
    g'.valueNode? q slot = some a.1) (fun hs₁ => { hs₁.pairing with parameters := ?_ })
    ⟨(actual, here), by simp [Table.get?_insert], hactual⟩
  intro k a ha
  rw [Table.get?_insert] at ha
  split at ha
  · rename_i hk
    subst hk
    rcases List.mem_append.mp ha with ha | ha
    · exact hs₁.pairing.parameters _ a ha
    · cases List.mem_singleton.mp ha
      exact ⟨q, slot, hhere.mono hl₁.graph, hactual⟩
  · exact hs₁.pairing.parameters k a ha

/-- A parameter that is received is equated with all that were passed. -/
theorem ends_visitParameter (hs : s.Sound t) {index : UInt64} {slot : ValueSlot}
    (hhere : here.Names t s.graph q (.paramCallee index slot)) :
    (visiting t).Ends s (visitParameter t.program q here index slot)
      (fun _ s' => ∀ a ∈ (s.pairing.parameters.get? (q, index)).getD [], s'.graph.Equates q slot a.1) E := by
  refine .bind (ends_slotNode q slot) fun formal s₁ hl₁ ⟨hsame, hformal⟩ => .get_bind ?_
  have hs₁ := hl₁.sound hs
  rw [hsame]
  refine .bind (ends_remember (Q := fun _ _ => True) (fun hs₁ => { hs₁.pairing with parameters := ?_ }) trivial) ?_
  · intro k a ha
    rw [Table.get?_erase] at ha
    split at ha
    · cases ha
    · exact hs₁.pairing.parameters k a ha
  · intro _ s₂ hl₂ _
    refine .forM (fun _ _ _ hl h => h.mono hl.graph) fun actual hactual s₃ hl₃ => ?_
    have hext := hl₂.graph.trans hl₃.graph
    obtain ⟨caller, passed, hthere, hactual⟩ := hs₁.pairing.parameters (q, index) actual (hsame ▸ hactual)
    have hformal := hext.values _ _ _ hformal
    have hactual := hext.values _ _ _ hactual
    refine (ends_edit (Edit.ends_relateValues (hl₃.sound (hl₂.sound hs₁)).graph hformal hactual ?_)).imp
      fun _ _ hl hr => ⟨formal, hl.graph.values _ _ _ hformal, hr⟩
    exact .parameter (hthere.mono hext) ((hhere.mono hl₁.graph).mono hext) hformal hactual

/-- A result that is received is equated with the one that was returned. -/
theorem ends_received (hs : s.Sound t) {callee : ProcedureId} {slot : ValueSlot}
    (hhere : here.Names t s.graph q (.normalReturnCaller callee slot)) :
    (visiting t).Ends s (do
        let received ← edit (t.program.slotNode q slot)
        match (← get).pairing.returns.get? callee with
        | some (n, origin) => edit (Edit.relate received .eq n [origin, here])
        | none => anomaly)
      (fun _ s' => ∀ a, s.pairing.returns.get? callee = some a → s'.graph.Equates q slot a.1) E := by
  refine .bind (ends_slotNode q slot) fun received s₁ hl₁ ⟨hsame, hreceived⟩ => .get_bind ?_
  have hs₁ := hl₁.sound hs
  rw [← hsame]
  split
  · rename_i n origin hget
    obtain ⟨st, slot, hthere, hslot, hn⟩ := hs₁.pairing.returns callee _ hget
    refine (ends_edit (Edit.ends_relateValues hs₁.graph hreceived hn ?_)).imp fun _ _ hl hr a ha => ?_
    · exact .result hthere hslot (hhere.mono hl₁.graph) hreceived hn
    · cases hget.symm.trans ha
      exact ⟨received, hl.graph.values _ _ _ hreceived, hr⟩
  · rename_i hnone
    exact (ends_count _).imp fun _ _ _ _ a ha => by cases hnone.symm.trans ha

/-- A statement that can be reached leaves what it has to, unless it is a call that is refused. -/
theorem ends_visit (hs : s.Sound t) {statement : Statement}
    (hruns : t.program.Runs statement.procedure statement.id statement.kind) :
    (visiting t).Ends s (visit t statement) (fun _ s' => s'.graph.Handled t statement) (Refused t statement) := by
  obtain ⟨id, q, kind⟩ := statement
  refine .get_bind ?_
  have hhere : StatementRef.Names ⟨s.graph.entrypoint, id⟩ t s.graph q kind := ⟨rfl, hruns⟩
  cases kind with
  | phi target operands =>
      refine (ends_visitPhi hs hhere).imp fun _ s' _ hlinked => .of_isPlain rfl ?_
      rintro _ _ operand ⟨⟩
      exact hlinked operand ‹_›
  | normal instruction => exact ends_visitInstruction hs hhere
  | paramCaller callee index value => exact (ends_passed hhere).imp fun _ _ _ _ => .of_isSilent rfl
  | paramCallee index value => exact (ends_visitParameter hs hhere).imp fun _ _ _ _ => .of_isSilent rfl
  | normalReturnCaller callee value => exact (ends_received hs hhere).imp fun _ _ _ _ => .of_isSilent rfl
  | normalReturnCallee value => exact (ends_returned hhere rfl).imp fun _ _ _ _ => .of_isSilent rfl
  | heapParamCallee location | heapReturnCaller location | heapReturnCallee location =>
      exact (ends_visitHeap hs hhere rfl).imp fun _ _ _ _ => .of_isSilent rfl

end Build

end SinkFlow
