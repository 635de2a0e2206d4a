import SinkFlow.Proofs.Analysis.Agreement
import SinkFlow.Proofs.Analysis.Refusal
import SinkFlow.Proofs.Build.Initializer

/-!
What a collection of fields leaves in a graph that was built, exactly. Nothing is known before, and what is noted for a
node has one trace only, so what is known afterwards is what was noted.
-/

namespace SinkFlow

/-- The trace of an item that a field or a literal brings in. -/
def Item.firstTrace : Item → Trace
  | .constant _ => none
  | _ => some []

theorem Literal.firstTrace_item (l : Literal) : l.item.firstTrace = l.trace := by
  cases l <;> rfl

/-- A view is one of a single field. -/
theorem GraphTables.Shows.unique {g : GraphTables} {n : NodeId} {field field' : FieldSignature} (h : g.Shows n field)
    (h' : g.Shows n field') : field = field' := by
  obtain ⟨kind, hkind, hfield⟩ := h
  obtain ⟨kind', hkind', hfield'⟩ := h'
  rw [hkind] at hkind'
  cases hkind'
  rw [hfield] at hfield'
  exact Option.some.inj hfield'

namespace FlowGraph

open GraphTables (SameShape)

variable {g g' built : FlowGraph} {n : NodeId} {i : Item} {t : Trace} {p : Program} {l : Literal}
  {field field' : FieldSignature}

/-! ## Notes -/

/-- A node views a static field that the initializer of its class stores a literal into. -/
def InitializedTo (p : Program) (g : FlowGraph) (n : NodeId) (l : Literal) : Prop :=
  ∃ field body, n ∈ g.incomingViews field ∧ (g.node? n).any (·.kind.isStaticField) ∧
    p.initializer? field.className = some body ∧ body.Stores p field l

/-- The reason for which a collection of fields notes an item for a node. -/
def Notes (p : Program) (g : FlowGraph) (n : NodeId) : Item → Prop
  | .inputField field => n ∈ g.incomingViews field
  | .outputField field => n ∈ g.outgoingViews field
  | .text text => InitializedTo p g n (.text text)
  | .constant c => InitializedTo p g n (.constant c)

theorem notes_item : Notes p g n l.item ↔ InitializedTo p g n l := by
  cases l <;> rfl

theorem mem_outgoingFields (h : n ∈ g.outgoingViews field) : field ∈ g.outgoingFields := by
  rw [GraphTables.outgoingFields, mem_sortBy, Table.mem_keys_iff]
  cases hget : g.outgoing.get? field with
  | none => simp [GraphTables.outgoingViews, hget] at h
  | some views => rfl

theorem mem_initializerNotes :
    (n, i, t) ∈ initializerNotes p g field ↔
      ∃ l, i = l.item ∧ t = l.trace ∧ n ∈ FieldStats.staticViews g field ∧
        ∃ body, p.initializer? field.className = some body ∧ body.Stores p field l := by
  unfold initializerNotes
  split
  case h_1 hbody => simp [hbody]
  case h_2 body hbody =>
    simp only [hbody, List.mem_flatMap, List.mem_map, Prod.mk.injEq, InitializerBody.mem_literalsOf, Option.some.injEq]
    constructor
    · rintro ⟨l, hl, _, hn, rfl, rfl, rfl⟩
      exact ⟨l, rfl, rfl, hn, body, rfl, hl⟩
    · rintro ⟨l, rfl, rfl, hn, _, rfl, hl⟩
      exact ⟨l, hl, n, hn, rfl, rfl, rfl⟩

theorem mem_fieldNotes_of_initializedTo (h : InitializedTo p g n l) : (n, l.item, l.trace) ∈ fieldNotes p g := by
  obtain ⟨field, body, hn, hstatic, hbody, hl⟩ := h
  have hview : n ∈ FieldStats.staticViews g field := List.mem_filter.mpr ⟨hn, hstatic⟩
  have hfield : field ∈ g.incomingFields.filter fun f => !(FieldStats.staticViews g f).isEmpty := by
    simp [mem_incomingFields hn, List.ne_nil_of_mem hview]
  have hnote : (n, l.item, l.trace) ∈ initializerNotes p g field :=
    mem_initializerNotes.mpr ⟨l, rfl, rfl, hview, body, hbody, hl⟩
  exact List.mem_append_right _ (List.mem_flatMap.mpr ⟨field, hfield, hnote⟩)

theorem mem_fieldNotes : (n, i, t) ∈ fieldNotes p g ↔ Notes p g n i ∧ t = i.firstTrace := by
  constructor
  · simp only [fieldNotes, List.mem_append, List.mem_flatMap, mem_initializerNotes, incomingNotes, outgoingNotes,
      List.mem_map, Prod.mk.injEq, FieldStats.staticViews, List.mem_filter]
    rintro ((⟨field, _, _, hn, rfl, rfl, rfl⟩ | ⟨field, _, _, hn, rfl, rfl, rfl⟩) |
      ⟨field, _, l, rfl, rfl, ⟨hn, hstatic⟩, body, hbody, hl⟩)
    · exact ⟨hn, rfl⟩
    · exact ⟨hn, rfl⟩
    · exact ⟨notes_item.mpr ⟨field, body, hn, hstatic, hbody, hl⟩, l.firstTrace_item.symm⟩
  · rintro ⟨h, rfl⟩
    cases i with
    | inputField field =>
        have hnote : (n, .inputField field, some []) ∈ g.incomingNotes field := List.mem_map_of_mem h
        exact List.mem_append_left _ (List.mem_append_left _
          (List.mem_flatMap.mpr ⟨field, mem_incomingFields h, hnote⟩))
    | outputField field =>
        have hnote : (n, .outputField field, some []) ∈ g.outgoingNotes field := List.mem_map_of_mem h
        exact List.mem_append_left _ (List.mem_append_right _
          (List.mem_flatMap.mpr ⟨field, mem_outgoingFields h, hnote⟩))
    | text text => exact mem_fieldNotes_of_initializedTo h
    | constant c => exact mem_fieldNotes_of_initializedTo h

theorem InitializedTo.isOpen {s : Setting} (hg : GraphTables.Sound s g) (h : InitializedTo p g n l) : g.isOpen n := by
  obtain ⟨field, _, hn, _⟩ := h
  exact (hg.incoming field n hn).isOpen

/-- Notes are only made for views, which are there and can learn. -/
theorem Notes.isOpen {s : Setting} (hg : GraphTables.Sound s g) (h : Notes p g n i) : g.isOpen n := by
  cases i with
  | inputField field => exact (hg.incoming field n h).isOpen
  | outputField field => exact (hg.outgoing field n h).isOpen
  | text text => exact InitializedTo.isOpen hg h
  | constant c => exact InitializedTo.isOpen hg h

/-! ## Collecting -/

theorem trace?_collectFields_iff {s : Setting} {fields : FieldStats} (hg : GraphTables.Sound s built)
    (hblank : ∀ n i, (built.factsAt n).has i = false) (h : built.collectFields p = (.ok fields, g)) :
    (g.factsAt n).trace? i = some t ↔ Notes p built n i ∧ t = i.firstTrace := by
  constructor
  · intro ht
    exact mem_fieldNotes.mp (trace?_collectFields hblank h ht)
  · rintro ⟨hnotes, rfl⟩
    have hnote : (n, i, i.firstTrace) ∈ fieldNotes p built := mem_fieldNotes.mpr ⟨hnotes, rfl⟩
    have hhas : (g.factsAt n).has i := by
      rw [collectFields_eq h]
      exact has_note (GraphTables.node?_isSome_of_isOpen (hnotes.isOpen hg)) hnote
    obtain ⟨t, ht⟩ := Facts.trace?_of_has hhas
    rw [ht, (mem_fieldNotes.mp (trace?_collectFields hblank h ht)).2]

/-- The fields of a graph that is not being built are not collected. -/
theorem collectFields_of_phase_ne (h : g.phase ≠ .building) (p : Program) :
    g.collectFields p = (.error (.invalidPhase .building g.phase), g) := by
  have hexpect : g.expect .building = .error (.invalidPhase .building g.phase) := if_neg h
  unfold collectFields FieldStats.collect
  rw [Edit.runOn, run_bind]
  have hrun : (Edit.attempt fun g => (g.expect .building).map fun _ => ((), g)).run g =
      (.error (.invalidPhase .building g.phase), g) := by
    simp only [Edit.attempt, ExceptT.run, ExceptT.mk, hexpect, Except.map]
  rw [hrun]

/-- What a collection of fields leaves in a graph: the graph as it was but for facts, and of these no others than the
fields of views and the literals of static initializers. -/
structure HoldsFields (p : Program) (built g : FlowGraph) : Prop where
  phase : g.phase = .fieldsCollected
  shape : SameShape (built.inPhase .fieldsCollected) g
  inputs : ∀ n field t,
    (g.factsAt n).trace? (.inputField field) = some t ↔ n ∈ built.incomingViews field ∧ t = some []
  outputs : ∀ n field t,
    (g.factsAt n).trace? (.outputField field) = some t ↔ n ∈ built.outgoingViews field ∧ t = some []
  texts : ∀ n text t, (g.factsAt n).trace? (.text text) = some t ↔ InitializedTo p built n (.text text) ∧ t = some []
  constants : ∀ n c, (g.factsAt n).has (.constant c) ↔ InitializedTo p built n (.constant c)

theorem holdsFields_collectFields {s : Setting} {fields : FieldStats} (hg : GraphTables.Sound s built)
    (hblank : ∀ n i, (built.factsAt n).has i = false) (h : built.collectFields p = (.ok fields, g)) :
    HoldsFields p built g where
  phase := by rw [collectFields_eq h, phase_inPhase]
  shape := shape_collectFields h
  inputs n field t := trace?_collectFields_iff hg hblank h
  outputs n field t := trace?_collectFields_iff hg hblank h
  texts n text t := trace?_collectFields_iff hg hblank h
  constants n c := by
    rw [Facts.has_eq_isSome, Option.isSome_iff_exists]
    simp only [trace?_collectFields_iff hg hblank h, exists_and_left, exists_eq, and_true, Notes]

/-- The fields of a graph that was built can be collected. -/
theorem exists_collectFields {s : Setting} (hg : GraphTables.Sound s built) (p : Program) :
    ∃ fields g, built.collectFields p = (.ok fields, g) := by
  rcases hcollect : built.collectFields p with ⟨r, g⟩
  cases r with
  | error err => exact ((FieldStats.ends_collect hg p).of_error hcollect).elim
  | ok fields => exact ⟨fields, g, rfl⟩

/-- A graph that was built, whatever its setting and whatever program its initializers are taken from, has its fields
collected: views know the fields that list them, and views of static fields the literals that are stored into their one
field on the way through the initializer, which the walk comes to the end of. At any other stage nothing happens. -/
theorem collectFields_exact {e : EntrypointId} {s : Setting} {cancelled : Bool} {stats : BuildStats}
    (hbuild : (({ entrypoint := e } : FlowGraph).build s cancelled).result = .ok stats) (p : Program) :
    let built := (({ entrypoint := e } : FlowGraph).build s cancelled).graph
    (∃ fields g, built.collectFields p = (.ok fields, g) ∧ HoldsFields p built g) ∧
      (∀ n field field', n ∈ built.incomingViews field → n ∈ built.incomingViews field' → field = field') ∧
      (∀ body : InitializerBody, body.Walks [0] [0] body.reachable) ∧
      ∀ g : FlowGraph, g.phase ≠ .building → g.collectFields p = (.error (.invalidPhase .building g.phase), g) := by
  intro built
  have hblank : ∀ n i, (built.factsAt n).has i = false := (drawn_build hbuild).blank
  have hsound : GraphTables.Sound s built := sound_build hbuild
  obtain ⟨fields, g, hcollect⟩ := exists_collectFields hsound p
  refine ⟨⟨fields, g, hcollect, holdsFields_collectFields hsound hblank hcollect⟩, ?_, ?_, ?_⟩
  · intro n field field' hn hn'
    exact (hsound.incoming field n hn).unique (hsound.incoming field' n hn')
  · exact InitializerBody.walks_reachable
  · exact fun g hg => collectFields_of_phase_ne hg p

/-- A static field that only its initializer writes. -/
def presetField : FieldSignature := ⟨"app.Preset", "value"⟩

/-- An initializer that goes round in circles, that has a block following itself and one that is never reached, and
that lists a position without a block. -/
def presetBody : InitializerBody where
  procedure := 7
  blocks :=
    [⟨[.putField none 3 presetField], [1, 0, 9]⟩,
      ⟨[.putField none 4 presetField, .putField (some 8) 6 presetField], [1, 0]⟩, ⟨[.putField none 5 presetField], [2]⟩]

/-- A program that reads the field. -/
def presetProgram : Program := GraphDocument.program
  { statements := [⟨0, 0, .normal (.getField 1 none presetField)⟩]
    literals := [⟨7, 3, .text "host"⟩, ⟨7, 4, .constant (.int 80)⟩, ⟨7, 5, .text "lost"⟩, ⟨7, 6, .text "kept"⟩]
    initializers := [("app.Preset", presetBody)]
    rootProcedure := some 0 }

/-- The second node of the program views the field. -/
theorem presetProgram_build :
    let outcome := ({ entrypoint := 0 } : FlowGraph).build ⟨presetProgram, {}, {}⟩ false
    outcome.result.toOption.isSome ∧ 1 ∈ outcome.graph.incomingViews presetField ∧
      (outcome.graph.node? 1).any (·.kind.isStaticField) := by
  decide +kernel

theorem presetBody_stores :
    presetBody.literalsOf presetProgram presetField = [.text "host", .constant (.int 80)] := by
  decide +kernel

theorem presetProgram_exact :
    let s : Setting := ⟨presetProgram, {}, {}⟩
    let built := (({ entrypoint := 0 } : FlowGraph).build s false).graph
    (∃ stats, (({ entrypoint := 0 } : FlowGraph).build s false).result = .ok stats) ∧
      ∃ fields g, built.collectFields presetProgram = (.ok fields, g) ∧
        (g.factsAt 1).trace? (.inputField presetField) = some (some []) ∧
        (g.factsAt 1).trace? (.text "host") = some (some []) ∧ (g.factsAt 1).has (.constant (.int 80)) ∧
        (g.factsAt 1).trace? (.text "lost") = none ∧ (g.factsAt 1).trace? (.text "kept") = none := by
  dsimp only
  obtain ⟨hbuilt, hview, hstatic⟩ := presetProgram_build
  obtain ⟨stats, hstats⟩ := Option.isSome_iff_exists.mp hbuilt
  have hbuild := eq_ok_of_toOption hstats
  obtain ⟨⟨fields, g, hcollect, hholds⟩, hone, _⟩ := collectFields_exact hbuild presetProgram
  have hbody : presetProgram.initializer? presetField.className = some presetBody := by decide +kernel
  have hliteral : ∀ l, InitializedTo presetProgram
      (({ entrypoint := 0 } : FlowGraph).build ⟨presetProgram, {}, {}⟩ false).graph 1 l ↔
        l ∈ [.text "host", .constant (.int 80)] := by
    intro l
    rw [← presetBody_stores, InitializerBody.mem_literalsOf]
    constructor
    · rintro ⟨field, body, hn, _, hbody', hl⟩
      cases hone 1 field presetField hn hview
      rw [hbody] at hbody'
      cases hbody'
      exact hl
    · exact fun hl => ⟨presetField, presetBody, hview, hstatic, hbody, hl⟩
  have hnone : ∀ text, text ≠ "host" → (g.factsAt 1).trace? (.text text) = none := by
    intro text hne
    cases ht : (g.factsAt 1).trace? (.text text) with
    | none => rfl
    | some t =>
        have hmem := (hliteral _).mp ((hholds.texts 1 text t).mp ht).1
        simp [hne] at hmem
  refine ⟨⟨stats, hbuild⟩, fields, g, hcollect, (hholds.inputs 1 presetField _).mpr ⟨hview, rfl⟩, ?_, ?_, ?_, ?_⟩
  · exact (hholds.texts 1 "host" _).mpr ⟨(hliteral _).mpr (by simp), rfl⟩
  · exact (hholds.constants 1 _).mpr ((hliteral _).mpr (by simp))
  · exact hnone "lost" (by decide)
  · exact hnone "kept" (by decide)

end FlowGraph

end SinkFlow
