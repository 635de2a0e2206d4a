import SinkFlow.Proofs.Build.Progress

/-!
What a statement does to the views of fields. An access makes a view and a heap statement takes the one that stands for
its field in the procedure; either is related to all views of the field that the run has seen before. No other statement
makes a view or sees one, also not a call that is refused.
-/

namespace SinkFlow

/-- The static field for which a heap statement takes the view that stands for it in its procedure. In the root
procedure it takes none. -/
def Program.represented? (p : Program) (st : Statement) : Option FieldSignature :=
  match st.kind with
  | .heapParamCallee location | .heapReturnCaller location | .heapReturnCallee location =>
    if p.rootProcedure = some st.procedure then none else location.staticField?
  | _ => none

/-- The views of a field that a run has seen. -/
def BuildState.seen (s : BuildState) (field : FieldSignature) : List NodeId := (s.pairing.views.get? field).getD []

namespace GraphTables

variable {g g' : GraphTables} {n : NodeId} {q : ProcedureId} {field : FieldSignature} {op : Operation} {p : Program}
  {t : Setting} {fresh : NodeId → FieldSignature → Prop}

/-! ## Graphs -/

/-- What stands for a field in a procedure goes on to do so. -/
def KeepsStatics (g g' : GraphTables) : Prop :=
  ∀ q field n, (g.scope q).statics.get? field = some n → (g'.scope q).statics.get? field = some n

theorem keepsStatics_of_scopes (h : g'.scopes = g.scopes) : KeepsStatics g g' := by
  intro q field n hn
  rwa [scope, h]

/-- A procedure may get another scope in which the same views stand for fields. -/
theorem keepsStatics_insert {s : Scope} (hscopes : g'.scopes = g.scopes.insert q s)
    (h : ∀ field n, (g.scope q).statics.get? field = some n → s.statics.get? field = some n) : KeepsStatics g g' := by
  intro q' field n hn
  have hscope : g'.scope q' = if q' = q then s else g.scope q' := by
    rw [← scope_insert, scope, scope, hscopes]
  rw [hscope]
  split
  · rename_i hq
    exact h field n (hq ▸ hn)
  · exact hn

theorem static_eq (g : GraphTables) (q : ProcedureId) (field : FieldSignature) :
    (g.scopes.get? q).bind (·.statics.get? field) = (g.scope q).statics.get? field := by
  cases h : g.scopes.get? q with
  | none => simp only [scope, h]; rfl
  | some s => simp [scope, h]

/-- The view that stands for a field in a procedure is there, or it is made and stands for the field from then on. -/
theorem representative_cases (g : GraphTables) (q : ProcedureId) (field : FieldSignature) :
    (∃ n, (g.scope q).statics.get? field = some n ∧ g.representative q field = ((n, false), g)) ∨
      (g.scope q).statics.get? field = none ∧ (g.representative q field).1.1 = g.nodes.size ∧
        (∃ k, (g.representative q field).2.nodes = g.nodes.push { id := g.nodes.size, kind := .staticField k field }) ∧
        ∀ q' field', ((g.representative q field).2.scope q').statics.get? field' =
          if q' = q ∧ field' = field then some g.nodes.size else (g.scope q').statics.get? field' := by
  unfold representative
  rw [static_eq]
  cases hn : (g.scope q).statics.get? field with
  | some n => exact .inl ⟨n, rfl, rfl⟩
  | none =>
      refine .inr ⟨rfl, rfl, ⟨_, rfl⟩, fun q' field' => ?_⟩
      have hview : ∀ q', ((g.staticView q field).2.scope q').statics = (g.scope q').statics := by
        intro q'
        simp only [staticView, pushNumbered, scope_insert]
        split
        · rename_i hq
          rw [hq]
        · rfl
      simp only [scope_insert]
      by_cases hq : q' = q
      · by_cases hfield : field' = field <;> simp [hq, hfield, Table.get?_insert, hview]; rfl
      · simp [hq, hview]

theorem keepsStatics_representative (g : GraphTables) (q : ProcedureId) (field : FieldSignature) :
    KeepsStatics g (g.representative q field).2 := by
  intro q' field' n hn
  rcases representative_cases g q field with ⟨_, _, hsame⟩ | ⟨hnone, _, _, hstatics⟩
  · rwa [hsame]
  · rw [hstatics, if_neg]
    · exact hn
    · rintro ⟨rfl, rfl⟩
      cases hnone.symm.trans hn

/-- No operation of a build replaces what stands for a field in a procedure. -/
theorem keepsStatics_perform (hop : op.Builds p) (hg : g.perform op = .ok g') : KeepsStatics g g' := by
  rcases hop with hop | hop | hop | hop
  · cases hop with
    | value q' slot =>
        cases hg
        unfold valueNode
        split
        · exact fun _ _ _ h => h
        · exact keepsStatics_insert rfl fun _ _ h => h
    | standIn q' tag => cases hg; exact keepsStatics_insert rfl fun _ _ h => h
    | relation target kind source path =>
        obtain ⟨⟨r, _⟩, hadd, rfl⟩ := exists_of_map_eq_ok hg
        obtain ⟨_, _, _, ⟨_, _, rfl⟩ | ⟨_, _, rfl⟩ | ⟨_, _, _, rfl⟩⟩ := addConstraint_cases hadd
        · exact fun _ _ _ h => h
        · exact fun _ _ _ h => h
        · exact keepsStatics_of_scopes (by rw [pushConstraint_rest])
  · cases hop with
    | object q' o field' | static q' field' => cases hg; exact keepsStatics_insert rfl fun _ _ h => h
    | representative q' field' => cases hg; exact keepsStatics_representative g q' field'
    | incoming | outgoing | access => cases hg; exact keepsStatics_of_scopes rfl
  · cases hop with
    | begin m =>
        obtain ⟨⟨id, _⟩, hchain, rfl⟩ := exists_of_map_eq_ok hg
        rcases chainFor_cases hchain with ⟨_, rfl⟩ | ⟨_, hattach⟩
        · exact fun _ _ _ h => h
        · obtain ⟨_, rfl⟩ := attachChain_eq_ok_iff.mp hattach
          exact keepsStatics_of_scopes rfl
    | attach m id =>
        obtain ⟨_, rfl⟩ := attachChain_eq_ok_iff.mp hg
        exact keepsStatics_of_scopes rfl
    | push => cases hg; exact keepsStatics_of_scopes rfl
  · cases hop with
    | special m =>
        obtain ⟨_, rfl⟩ := markSpecial_eq_ok_iff.mp hg
        exact keepsStatics_of_scopes rfl
    | site site =>
        cases hg
        refine keepsStatics_of_scopes ?_
        unfold registerSink
        split <;> rfl

/-- One view of a field. -/
def only (n : NodeId) (field : FieldSignature) (m : NodeId) (field' : FieldSignature) : Prop := m = n ∧ field' = field

/-- What a part of a build does to the views of a graph: none appear but for some, and what stands for a field in a
procedure goes on to do so. -/
structure AddsViews (fresh : NodeId → FieldSignature → Prop) (g g' : GraphTables) : Prop where
  extended : Extends g g'
  wellFormed : g.WellFormed → g'.WellFormed
  shows : ∀ n field, g'.Shows n field → g.Shows n field ∨ fresh n field
  statics : KeepsStatics g g'

/-- The course on which no views appear but for some. -/
def viewing (fresh : NodeId → FieldSignature → Prop) : Course GraphTables where
  leads := AddsViews fresh
  refl g := ⟨.refl g, id, fun _ _ h => .inl h, fun _ _ _ h => h⟩
  trans h h' := ⟨h.extended.trans h'.extended, h'.wellFormed ∘ h.wellFormed,
    fun n field hn => (h'.shows n field hn).elim (h.shows n field) .inr,
    fun q field n hn => h'.statics q field n (h.statics q field n hn)⟩

theorem viewing_perform (hop : op.Builds t.program) (hmakes : ∀ kind, op.Makes kind → kind.field? = none)
    (hg : g.perform op = .ok g') : (viewing fresh).leads g g' := by
  refine ⟨extends_perform hop hg, (living_perform hg).2, ?_, keepsStatics_perform hop hg⟩
  rintro n field ⟨kind, hkind, hfield⟩
  rcases kind?_perform hop hg hkind with hold | hnew
  · exact .inl ⟨kind, hold, hfield⟩
  · rw [hmakes kind hnew] at hfield
    cases hfield

/-- An operation that makes a node makes no view but that. -/
theorem viewing_push {kind : NodeKind} (hfield : kind.field? = some field) (hop : op.Builds t.program)
    (hg : g.perform op = .ok g') (hnodes : g'.nodes = g.nodes.push { id := g.nodes.size, kind }) :
    (viewing (only g.nodes.size field)).leads g g' ∧ g'.Shows g.nodes.size field := by
  refine ⟨⟨extends_perform hop hg, (living_perform hg).2, ?_, keepsStatics_perform hop hg⟩, kind, ?_, hfield⟩
  · rintro n field' ⟨kind', hkind, hfield'⟩
    rw [kind?_push hnodes] at hkind
    split at hkind
    · rename_i hn
      cases hkind
      exact .inr ⟨hn, Option.some.inj (hfield'.symm.trans hfield)⟩
    · exact .inl ⟨kind', hkind, hfield'⟩
  · rw [kind?_push hnodes, if_pos rfl]

theorem viewing_representative (t : Setting) (g : GraphTables) (q : ProcedureId) (field : FieldSignature) :
    (viewing (only (g.representative q field).1.1 field)).leads g (g.representative q field).2 ∧
      ((g.representative q field).2.scope q).statics.get? field = some (g.representative q field).1.1 := by
  rcases representative_cases g q field with ⟨n, hn, hsame⟩ | ⟨_, hnew, ⟨k, hnodes⟩, hstatics⟩
  · rw [hsame]
    exact ⟨(viewing _).refl g, hn⟩
  · rw [hnew, hstatics, if_pos ⟨rfl, rfl⟩]
    have hop : (Operation.representative q field).Builds t.program := .inr (.inl (.representative q field))
    have hkind : (NodeKind.staticField k field).field? = some field := rfl
    exact ⟨(viewing_push hkind hop rfl hnodes).1, rfl⟩

end GraphTables

/-- The course of flow graphs on which no views appear but for some. -/
def FlowGraph.viewing (fresh : NodeId → FieldSignature → Prop) : Course FlowGraph :=
  (GraphTables.viewing fresh).along FlowGraph.toGraphTables

/-! ## Steps -/

open GraphTables

theorem Edit.ends_relate_viewing {g : FlowGraph} {fresh : NodeId → FieldSignature → Prop} {n m : NodeId}
    {kind : ConstraintKind} {path : Path} {E : AnalysisError → Prop} (t : Setting) (hphase : g.phase = .building)
    (hn : (g.node? n).isSome) (hm : (g.node? m).isSome) :
    (FlowGraph.viewing fresh).Ends g (Edit.relate n kind m path) (fun _ g' => g'.Related n kind m) E := by
  obtain ⟨r, g', hadd⟩ := FlowGraph.exists_addConstraint hphase hn hm kind path
  have htables := FlowGraph.attempted_eq_ok_iff.mp hadd
  have hperform : g.perform (.addConstraint n kind m path) = .ok g' := by simp [perform, htables, Except.map]
  have hrelate : (g.addConstraint n kind m path).map (fun r => ((), r.2)) = .ok ((), g') := by
    simp [hadd, Except.map]
  refine Edit.ends_attempt hrelate (viewing_perform (t := t) (.inl (.relation n kind m path)) ?_ hperform)
    (related_addConstraint g.inStep htables)
  intro _ hmakes
  cases hmakes

theorem Program.ends_slotNode_viewing {g : FlowGraph} {t : Setting} {fresh : NodeId → FieldSignature → Prop}
    {E : AnalysisError → Prop} (q : ProcedureId) (slot : ValueSlot) :
    (FlowGraph.viewing fresh).Ends g (t.program.slotNode q slot) (fun n g' => g'.valueNode? q slot = some n) E := by
  refine Edit.ends_change (viewing_perform (t := t) (.inl (.value q slot)) ?_ rfl) (valueNode?_valueNode g q slot _)
  rintro _ rfl
  rfl

namespace Build

variable {α : Type} {t : Setting} {s s' s'' : BuildState} {fresh : NodeId → FieldSignature → Prop} {q : ProcedureId}
  {field : FieldSignature} {view : NodeId} {here : StatementRef} {E : AnalysisError → Prop}

/-- What a part of a run does to the state that sees no view. -/
structure Overlooks (fresh : NodeId → FieldSignature → Prop) (s s' : BuildState) : Prop where
  graph : s.graph.AddsViews fresh s'.graph
  views : s'.pairing.views = s.pairing.views

/-- The course on which no views appear but for some, and a run sees none. -/
def overlooking (fresh : NodeId → FieldSignature → Prop) : Course BuildState where
  leads := Overlooks fresh
  refl s := ⟨(viewing fresh).refl s.graph, rfl⟩
  trans h h' := ⟨(viewing fresh).trans h.graph h'.graph, h'.views.trans h.views⟩

theorem Overlooks.of_none (h : Overlooks (fun _ _ => False) s s') : Overlooks fresh s s' :=
  ⟨{ h.graph with shows := fun n field hn => (h.graph.shows n field hn).imp_right False.elim }, h.views⟩

theorem ends_edit_overlooking {x : Edit α} {Q : α → FlowGraph → Prop} (h : (FlowGraph.viewing fresh).Ends s.graph x Q E) :
    (overlooking fresh).Ends s (edit x) (fun a s' => Q a s'.graph) E := by
  refine .intro (fun a s' hrun => ?_) fun e s' hrun => ?_
  · rcases hx : x.run s.graph with ⟨r, g⟩
    rw [run_edit hx] at hrun
    cases hrun
    obtain ⟨hl, hq⟩ := h.of_ok hx
    exact ⟨⟨hl, rfl⟩, hq⟩
  · rcases hx : x.run s.graph with ⟨r, g⟩
    rw [run_edit hx] at hrun
    cases hrun
    exact h.of_error hx

/-- What a step of a run does to the views: some views are seen, each of them related to all that were seen before. -/
structure Sights (fresh : NodeId → FieldSignature → Prop) (s s' : BuildState) : Prop where
  graph : s.graph.AddsViews fresh s'.graph
  seen : ∀ field n, n ∈ s'.seen field ↔ n ∈ s.seen field ∨ fresh n field
  related : ∀ field n, fresh n field → ∀ m ∈ s.seen field, s'.graph.Related n .eq m

theorem Sights.after (h : Overlooks fresh s s') (h' : Sights fresh s' s'') : Sights fresh s s'' := by
  have hseen : ∀ field, s'.seen field = s.seen field := fun field => by rw [BuildState.seen, h.views, BuildState.seen]
  refine ⟨(viewing fresh).trans h.graph h'.graph, fun field n => ?_, fun field n hn m hm => ?_⟩
  · rw [h'.seen, hseen]
  · exact h'.related field n hn m (hseen field ▸ hm)

/-- A run is in a state in which it can relate all views that it has seen. -/
structure Ready (s : BuildState) : Prop where
  phase : s.graph.phase = .building
  wellFormed : s.graph.WellFormed
  seen : ∀ field, ∀ n ∈ s.seen field, (s.graph.node? n).isSome

theorem Ready.mono (h : Ready s) (hl : Overlooks fresh s s') : Ready s' where
  phase := hl.graph.extended.phase.trans h.phase
  wellFormed := hl.graph.wellFormed h.wellFormed
  seen field n hn := by
    rw [BuildState.seen, hl.views] at hn
    exact hl.graph.extended.node?_isSome (h.seen field n hn)

/-- A view is related to all that were seen before, and is seen from then on. -/
theorem ends_unify_sights (t : Setting) (hs : Ready s) (hview : (s.graph.node? view).isSome) (path : Path) :
    Course.free.Ends s (unify field view path) (fun _ s' => Sights (only view field) s s') E := by
  refine .get_bind (.bind (Q := fun _ s₁ => Overlooks (only view field) s s₁ ∧
    ∀ m ∈ s.seen field, s₁.graph.Related view .eq m) ?_ ?_)
  · refine (Course.Ends.forM (C := overlooking (only view field)) (Q := fun m s₁ => s₁.graph.Related view .eq m)
      (fun m s₁ s₂ hl hr => hr.mono hl.graph.extended) ?_).toFree
    intro m hm s₁ hl
    have hphase := hl.graph.extended.phase.trans hs.phase
    refine ends_edit_overlooking (Edit.ends_relate_viewing t hphase ?_ ?_)
    · exact hl.graph.extended.node?_isSome hview
    · exact hl.graph.extended.node?_isSome (hs.seen field m hm)
  · rintro _ s₁ _ ⟨hl, hrelated⟩
    refine .modify trivial ⟨hl.graph, fun field' n => ?_, ?_⟩
    · simp only [BuildState.seen, Table.get?_insert, hl.views, only]
      by_cases hfield : field' = field <;> simp [hfield, or_comm]
    · rintro field' n ⟨rfl, rfl⟩ m hm
      exact hrelated m hm

theorem ends_newView_sights (t : Setting) (q : ProcedureId) (object : Option ValueSlot) (field : FieldSignature) :
    Course.free.Ends s (newView q object field) (fun view s' => s.graph.kind? view = none ∧
      Overlooks (only view field) s s' ∧ s'.graph.Shows view field) E := by
  have hpush : ∀ (op : Operation) (kind : NodeKind) (g' : FlowGraph), kind.field? = some field →
      op.Builds t.program → s.graph.perform op = .ok g' →
      g'.nodes = s.graph.nodes.push { id := s.graph.nodes.size, kind } →
      Overlooks (only s.graph.nodes.size field) s { s with graph := g' } ∧
        g'.Shows s.graph.nodes.size field := by
    intro op kind g' hfield hop hg hnodes
    obtain ⟨hl, hshows⟩ := viewing_push hfield hop hg hnodes
    exact ⟨⟨hl, rfl⟩, hshows⟩
  cases object with
  | none =>
      have hop : (Operation.staticView q field).Builds t.program := .inr (.inl (.static q field))
      exact ⟨trivial, kind?_size s.graph, hpush _ (.staticField _ field) _ rfl hop rfl rfl⟩
  | some o =>
      have hop : (Operation.instanceView q o field).Builds t.program := .inr (.inl (.object q o field))
      exact ⟨trivial, kind?_size s.graph, hpush _ (.instanceField q _ o field) _ rfl hop rfl rfl⟩

/-- A view of a field was made, and is seen. -/
def Accessed (field : FieldSignature) (s s' : BuildState) : Prop :=
  ∃ view, s.graph.kind? view = none ∧ s'.graph.Shows view field ∧ Sights (only view field) s s'

/-- An access to a field makes a view that is seen. -/
theorem ends_access_sights {slot : ValueSlot} {object : Option ValueSlot} (hs : Ready s)
    (relating : NodeId → NodeId → Edit Unit) (listing : NodeId → FlowGraph → FlowGraph)
    (hrelating : ∀ n view fresh g, g.phase = .building → (g.node? n).isSome → (g.node? view).isSome →
      (FlowGraph.viewing fresh).Ends g (relating n view) (fun _ _ => True) E)
    (hlisting : ∀ view fresh g, (FlowGraph.viewing fresh).leads g (listing view g)) (path : Path) :
    Course.free.Ends s (do
        let n ← edit (t.program.slotNode q slot)
        let view ← newView q object field
        edit (relating n view)
        edit (Edit.update (listing view))
        unify field view path)
      (fun _ => Accessed field s) E := by
  have hslot : (FlowGraph.viewing fun _ _ => False).Ends s.graph (t.program.slotNode q slot) _ E :=
    Program.ends_slotNode_viewing q slot
  refine .bind (ends_edit_overlooking hslot).toFree ?_
  rintro n s₁ _ ⟨hl₁, hn⟩
  have hs₁ := hs.mono hl₁
  refine .bind (ends_newView_sights t q object field) ?_
  rintro view s₂ _ ⟨hnew, hl₂, hview⟩
  have hn := hl₂.graph.extended.values _ _ _ hn
  have hs₂ := hs₁.mono hl₂
  have hrelate := hrelating n view (only view field) s₂.graph hs₂.phase (hs₂.wellFormed.node?_isSome hn)
    hview.node?_isSome
  refine .bind (ends_edit_overlooking hrelate).toFree ?_
  rintro _ s₃ _ ⟨hl₃, _⟩
  have hlist := hlisting view (only view field) s₃.graph
  refine .bind (ends_edit_overlooking (Q := fun _ _ => True) (Edit.ends_change hlist trivial)).toFree ?_
  rintro _ s₄ _ ⟨hl₄, _⟩
  have hl : Overlooks (only view field) s s₄ :=
    Course.trans _ hl₁.of_none (Course.trans _ hl₂ (Course.trans _ hl₃ hl₄))
  have hview := (hview.mono hl₃.graph.extended).mono hl₄.graph.extended
  refine (ends_unify_sights t ((hs₂.mono hl₃).mono hl₄) hview.node?_isSome path).imp fun _ s₅ _ hsights => ?_
  exact ⟨view, hl₁.graph.extended.kind?_eq_none hnew, hview.mono hsights.graph.extended, hsights.after hl⟩

theorem ends_getField_sights (hs : Ready s) (target : ValueSlot) (object : Option ValueSlot) :
    Course.free.Ends s (visitInstruction t q here (.getField target object field)) (fun _ => Accessed field s) E := by
  refine ends_access_sights hs (fun n view => Edit.relate n .eq view [here])
    (fun view g => (g.registerIncoming field view).recordAccess here.statement ⟨field, .get⟩) ?_ ?_ [here]
  · intro n view fresh g hphase hn hview
    exact (Edit.ends_relate_viewing t hphase hn hview).imp fun _ _ _ _ => trivial
  · intro view fresh g
    have hlisted : (viewing fresh).leads g (g.registerIncoming field view) :=
      viewing_perform (t := t) (.inr (.inl (.incoming field view))) nofun rfl
    exact Course.trans _ hlisted (viewing_perform (t := t) (.inr (.inl (.access here.statement _))) nofun rfl)

theorem ends_putField_sights (hs : Ready s) (object : Option ValueSlot) (value : ValueSlot) :
    Course.free.Ends s (visitInstruction t q here (.putField object value field)) (fun _ => Accessed field s) E := by
  refine ends_access_sights hs (fun n view => Edit.relate view .eq n [here])
    (fun view g => (g.registerOutgoing field view).recordAccess here.statement ⟨field, .put⟩) ?_ ?_ [here]
  · intro n view fresh g hphase hn hview
    exact (Edit.ends_relate_viewing t hphase hview hn).imp fun _ _ _ _ => trivial
  · intro view fresh g
    have hlisted : (viewing fresh).leads g (g.registerOutgoing field view) :=
      viewing_perform (t := t) (.inr (.inl (.outgoing field view))) nofun rfl
    exact Course.trans _ hlisted (viewing_perform (t := t) (.inr (.inl (.access here.statement _))) nofun rfl)

/-- A heap statement sees the view that stands for its field in its procedure. -/
theorem ends_representative_sights (t : Setting) (hs : Ready s) (q : ProcedureId) (field : FieldSignature)
    (path : Path) :
    Course.free.Ends s (do
        let (view, _) ← edit (Edit.change (·.representative q field))
        unify field view path)
      (fun _ s' => ∃ view, (s'.graph.scope q).statics.get? field = some view ∧ Sights (only view field) s s') E := by
  obtain ⟨hl, hstatic⟩ := viewing_representative t s.graph q field
  refine .bind (Q := fun (r : NodeId × Bool) s₁ => Overlooks (only r.1 field) s s₁ ∧
    (s₁.graph.scope q).statics.get? field = some r.1) ⟨trivial, ⟨hl, rfl⟩, hstatic⟩ ?_
  rintro ⟨view, new⟩ s₁ _ ⟨hl₁, hstatic⟩
  have hs₁ := hs.mono hl₁
  obtain ⟨k, hkind⟩ := hs₁.wellFormed.statics q field view hstatic
  have hview : s₁.graph.Shows view field := ⟨_, hkind, rfl⟩
  refine (ends_unify_sights t hs₁ hview.node?_isSome path).imp fun _ s₂ _ hsights => ?_
  exact ⟨view, hsights.graph.statics q field view hstatic, hsights.after hl₁⟩

/-! ## Statements without a view -/

theorem follows_edit {x : Edit α} {A : Operation → Prop} (h : Edit.Performs A x)
    (hA : ∀ op, A op → op.Builds t.program ∧ ∀ kind, op.Makes kind → kind.field? = none) :
    (overlooking fresh).Follows (edit x) := by
  intro s
  refine ⟨?_, rfl⟩
  exact h.leads (fun op hop g g' hg => viewing_perform (hA op hop).1 (hA op hop).2 hg) s.graph

theorem follows_draws {x : Edit α} (h : Edit.Performs (fun op => op.Draws t.program ∨ op.Chains ∨ op.Marks) x) :
    (overlooking fresh).Follows (edit x) := by
  refine follows_edit (t := t) h fun op hop => ?_
  rcases hop with hop | hop | hop
  · refine ⟨.inl hop, fun kind hkind => ?_⟩
    cases hop with
    | value => cases hkind; rfl
    | standIn => obtain ⟨_, rfl⟩ := hkind; rfl
    | relation => cases hkind
  · refine ⟨.inr (.inr (.inl hop)), fun kind hkind => ?_⟩
    cases hop <;> cases hkind
  · refine ⟨.inr (.inr (.inr hop)), fun kind hkind => ?_⟩
    cases hop <;> cases hkind

theorem follows_slotNode (q : ProcedureId) (slot : ValueSlot) :
    (overlooking fresh).Follows (edit (t.program.slotNode q slot)) :=
  follows_draws ((t.program.performs_slotNode q slot).mono fun _ => .inl)

theorem follows_relate (t : Setting) (target source : NodeId) (kind : ConstraintKind) (path : Path) :
    (overlooking fresh).Follows (edit (Edit.relate target kind source path)) :=
  follows_draws (t := t) ((Edit.performs_relate t.program target source kind path).mono fun _ => .inl)

theorem follows_relateSlots (q : ProcedureId) (target source : ValueSlot) (kind : ConstraintKind) (path : Path) :
    (overlooking fresh).Follows (relateSlots t.program q target kind source path) := by
  refine follows_draws (t := t) (Edit.Performs.mono ?_ fun _ => .inl)
  exact .bind (t.program.performs_slotNode q _) fun _ => .bind (t.program.performs_slotNode q _) fun _ =>
    Edit.performs_relate t.program _ _ _ _

theorem follows_count (f : BuildStats → BuildStats) : (overlooking fresh).Follows (count f) :=
  .modify fun s => ⟨(viewing fresh).refl s.graph, rfl⟩

theorem follows_remember {f : Pairing → Pairing} (hf : ∀ p, (f p).views = p.views) :
    (overlooking fresh).Follows (remember f) :=
  .modify fun s => ⟨(viewing fresh).refl s.graph, hf s.pairing⟩

theorem follows_returned (q : ProcedureId) (slot : ValueSlot) (here : StatementRef) :
    (overlooking fresh).Follows (returned t.program q slot here) :=
  .bind (follows_slotNode q slot) fun _ => follows_remember fun _ => rfl

theorem follows_visitCall (site : CallSite) : (overlooking fresh).Follows (visitCall t site) := by
  unfold visitCall
  refine .bind (follows_draws ((site.performs_checkSink t).mono fun _ => .imp_right .inr)) fun _ => ?_
  split
  · exact .bind (follows_draws ((site.performs_model t).mono fun _ => .imp_right .inl)) fun _ => follows_count _
  · exact .pure _

theorem follows_visitHeap (q : ProcedureId) (here : StatementRef) {location : HeapLocation}
    (hfield : location.staticField? = none) : (overlooking fresh).Follows (visitHeap t q here location) := by
  unfold visitHeap
  rw [hfield]
  exact .pure _

/-- A statement that has to do with no field sees no view, also when it is refused. -/
theorem follows_visit {statement : Statement} (hfield : statement.kind.field? = none) :
    (overlooking fresh).Follows (visit t statement) := by
  obtain ⟨id, q, kind⟩ := statement
  refine .get_bind fun s => ?_
  cases kind with
  | phi target operands =>
      refine .bind (follows_slotNode _ _) fun n => .forM fun operand _ => ?_
      refine follows_draws (t := t) (Edit.Performs.mono ?_ fun _ => .inl)
      exact .bind (Program.performs_slotNode _ _ _) fun m => Edit.performs_relate _ _ _ _ _
  | normal instruction =>
      cases instruction with
      | getField _ _ _ | putField _ _ _ => cases hfield
      | checkCast _ _ | arrayLoad _ _ | arrayStore _ _ => exact follows_relateSlots _ _ _ _ _
      | binaryOp target left right => exact .bind (follows_relateSlots _ _ _ _ _) fun _ => follows_relateSlots _ _ _ _ _
      | invoke call => exact follows_visitCall _
      | «return» value =>
          cases value with
          | none => exact .pure _
          | some value => exact follows_returned _ _ _
      | new _ | instanceOf _ _ | other => exact .pure _
  | paramCaller callee index value => exact .bind (follows_slotNode _ _) fun _ => follows_remember fun _ => rfl
  | paramCallee index value =>
      refine .bind (follows_slotNode _ _) fun n => .get_bind fun s => ?_
      exact .bind (follows_remember fun _ => rfl) fun _ => .forM fun _ _ => follows_relate t _ _ _ _
  | normalReturnCaller callee value =>
      refine .bind (follows_slotNode _ _) fun n => .get_bind fun s => ?_
      split
      · exact follows_relate t _ _ _ _
      · exact follows_count _
  | normalReturnCallee value => exact follows_returned _ _ _
  | heapParamCallee location | heapReturnCaller location | heapReturnCallee location =>
      exact follows_visitHeap _ _ hfield

/-! ## Statements -/

/-- What a statement does to the views: an access makes one and sees it, a heap statement sees the one that stands for
its field, and all other statements see none. -/
inductive Views (t : Setting) (statement : Statement) (s s' : BuildState) : Prop where
  | none (hnone : t.program.represented? statement = none) (hsights : Sights (fun _ _ => False) s s')
  | access {view : NodeId} {field : FieldSignature} (hnone : t.program.represented? statement = none)
      (hnew : s.graph.kind? view = none) (hview : s'.graph.Shows view field) (hsights : Sights (only view field) s s')
  | stands {view : NodeId} {field : FieldSignature} (hfield : t.program.represented? statement = some field)
      (hview : (s'.graph.scope statement.procedure).statics.get? field = some view)
      (hsights : Sights (only view field) s s')

theorem Views.after {statement : Statement} (h : Overlooks (fun _ _ => False) s s') (h' : Views t statement s' s'') :
    Views t statement s s'' := by
  cases h' with
  | none hnone hsights => exact .none hnone (hsights.after h)
  | access hnone hnew hview hsights =>
      exact .access hnone (h.graph.extended.kind?_eq_none hnew) hview (hsights.after h.of_none)
  | stands hfield hview hsights => exact .stands hfield hview (hsights.after h.of_none)

theorem Overlooks.sights (h : Overlooks (fun _ _ => False) s s') : Sights (fun _ _ => False) s s' where
  graph := h.graph
  seen field n := by simp [BuildState.seen, h.views]
  related _ _ := False.elim

theorem views_visitHeap (hs : Ready s) (statement : Statement) (here : StatementRef) (location : HeapLocation)
    (hstands : t.program.represented? statement =
      if t.program.rootProcedure = some statement.procedure then .none else location.staticField?) :
    Views t statement s ((visitHeap t statement.procedure here location).run s).2 := by
  unfold visitHeap
  cases hfield : location.staticField? with
  | none => exact .none (by simp [hstands, hfield]) (Overlooks.sights ((overlooking _).refl s))
  | some field =>
      dsimp only
      split
      · rename_i hroot
        exact .none (by simp [hstands, hroot]) (Overlooks.sights ((overlooking _).refl s))
      · rename_i hroot
        rw [if_neg hroot, hfield] at hstands
        obtain ⟨_, s', hrun, _, view, hview, hsights⟩ :=
          (ends_representative_sights t hs statement.procedure field [here]).of_false
        rw [hrun]
        exact .stands hstands hview hsights

/-- Every statement does to the views what it has to. A call may be refused, but it sees none. -/
theorem views_visit (hs : Ready s) (statement : Statement) : Views t statement s ((visit t statement).run s).2 := by
  obtain ⟨id, q, kind⟩ := statement
  have hplain : t.program.represented? ⟨id, q, kind⟩ = none → kind.field? = none →
      Views t ⟨id, q, kind⟩ s ((visit t ⟨id, q, kind⟩).run s).2 := fun hnone hfield =>
    .none hnone (Overlooks.sights (follows_visit hfield s))
  have haccess : ∀ {field : FieldSignature}, t.program.represented? ⟨id, q, kind⟩ = none →
      Course.free.Ends s (visit t ⟨id, q, kind⟩) (fun _ => Accessed field s) (fun _ => False) →
      Views t ⟨id, q, kind⟩ s ((visit t ⟨id, q, kind⟩).run s).2 := by
    intro field hnone hends
    obtain ⟨_, s', hrun, _, view, hnew, hview, hsights⟩ := hends.of_false
    rw [hrun]
    exact .access hnone hnew hview hsights
  cases kind with
  | normal instruction =>
      cases instruction with
      | getField target object field => exact haccess rfl (.get_bind (ends_getField_sights hs target object))
      | putField object value field => exact haccess rfl (.get_bind (ends_putField_sights hs object value))
      | _ => exact hplain rfl rfl
  | heapParamCallee location | heapReturnCaller location | heapReturnCallee location =>
      rw [visit, run_get_bind]
      exact views_visitHeap hs ⟨id, q, _⟩ ⟨s.graph.entrypoint, id⟩ location rfl
  | _ => exact hplain rfl rfl

end Build

end SinkFlow
