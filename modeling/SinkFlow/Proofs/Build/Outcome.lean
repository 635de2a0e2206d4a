import SinkFlow.Proofs.Build.Coverage
import SinkFlow.Proofs.Program

/-!
What a build gives. Every constraint of a graph that was built is justified by a statement that can be reached. For a
dependence graph, a build that is not stopped handles exactly the statements that can be reached, however its gate holds
them back, and each of them leaves all its constraints.
-/

namespace SinkFlow

/-- Where all that can be reached can be looked up, nothing is in the way of reaching a statement. -/
theorem Program.reaches_iff {p : Program} (hknown : ∀ id, p.Reachable id → (p.statement? id).isSome)
    {id : StatementId} : p.Reaches id ∧ (p.statement? id).isSome ↔ p.Reachable id := by
  constructor
  · rintro ⟨hid, -⟩
    induction hid with
    | root h => exact ⟨_, h, .refl⟩
    | edge _ _ hnext ih =>
        obtain ⟨root, hroot, hpath⟩ := ih
        exact ⟨root, hroot, hpath.tail hnext⟩
  · intro hid
    refine ⟨?_, hknown id hid⟩
    obtain ⟨root, hroot, hpath⟩ := hid
    induction hpath with
    | refl => exact .root hroot
    | tail hpath hnext ih => exact .edge ih (hknown _ ⟨root, hroot, hpath⟩) hnext

namespace GraphTables.Sound

variable {g : FlowGraph} {t : Setting} {q : ProcedureId} {n m : NodeId}

theorem kind?_value (h : Sound t g) {slot : ValueSlot} (hn : g.valueNode? q slot = some n) :
    g.kind? n = some (.value q slot (t.program.literal? q slot)) := by
  obtain ⟨v, hv, hkind⟩ := h.values q slot n hn
  simp [kind?, hv, hkind]

/-- The nodes of different values are different, so they are related by a constraint if they are related at all. -/
theorem constraint_of_linked (h : Sound t g) {target source : ValueSlot} {kind : ConstraintKind}
    (hlinked : g.Linked q target kind source) (hne : target ≠ source) :
    ∃ n m path, g.valueNode? q target = some n ∧ g.valueNode? q source = some m ∧
      ⟨n, kind, m, path⟩ ∈ g.constraints := by
  obtain ⟨n, m, hn, hm, rfl | ⟨path, hc⟩⟩ := hlinked
  · have hkind := (h.kind?_value hn).symm.trans (h.kind?_value hm)
    cases hkind
    exact absurd rfl hne
  · exact ⟨n, m, path, hn, hm, hc⟩

theorem view_ne (h : Sound t g) {slot : ValueSlot} {object : Option ValueSlot} {field : FieldSignature}
    (hn : g.valueNode? q slot = some n) (hview : g.IsView q object field m) : n ≠ m := by
  rintro rfl
  obtain ⟨kind, hkind, hfield⟩ := hview.shows
  cases (h.kind?_value hn).symm.trans hkind
  cases hfield

theorem accesses_of_handled (h : Sound t g) {id : StatementId} {st : Statement}
    (hst : t.program.statement? id = some st) (hhandled : g.Handled t st) {access : FieldAccess}
    (haccess : st.kind.access? = some access) : g.accesses.get? id = some access := by
  cases t.program.id_of_statement? hst
  obtain ⟨access', hget⟩ := Option.isSome_iff_exists.mp (hhandled.accesses access haccess)
  have hsame := h.accesses _ _ hget
  rw [hst, Option.bind_some, haccess] at hsame
  rw [hget, hsame]

end GraphTables.Sound

namespace FlowGraph

/-! ## What a statement leaves -/

/-- What a statement has to leave in a graph: constraints between the values that it relates, unless they are one, and
for an access to a field a view that is related to the value and listed under the field. -/
structure Leaves (g : FlowGraph) (st : Statement) : Prop where
  values : ∀ target kind source, st.kind.Relates target kind source → target ≠ source →
    ∃ n m path, g.valueNode? st.procedure target = some n ∧ g.valueNode? st.procedure source = some m ∧
      ⟨n, kind, m, path⟩ ∈ g.constraints
  reads : ∀ target object field, st.kind = .normal (.getField target object field) →
    g.accesses.get? st.id = some ⟨field, .get⟩ ∧ ∃ n, ∃ view ∈ g.incomingViews field, ∃ path,
      g.valueNode? st.procedure target = some n ∧ g.IsView st.procedure object field view ∧
        ⟨n, .eq, view, path⟩ ∈ g.constraints
  writes : ∀ object value field, st.kind = .normal (.putField object value field) →
    g.accesses.get? st.id = some ⟨field, .put⟩ ∧ ∃ n, ∃ view ∈ g.outgoingViews field, ∃ path,
      g.valueNode? st.procedure value = some n ∧ g.IsView st.procedure object field view ∧
        ⟨view, .eq, n, path⟩ ∈ g.constraints

theorem leaves_of_handled {g : FlowGraph} {t : Setting} (h : GraphTables.Sound t g) {st : Statement}
    (hst : t.program.statement? st.id = some st) (hhandled : g.Handled t st) : g.Leaves st where
  values target kind source hrelates := h.constraint_of_linked (hhandled.relates target kind source hrelates)
  reads target object field hkind := by
    refine ⟨h.accesses_of_handled hst hhandled (by rw [hkind]; rfl), ?_⟩
    obtain ⟨n, view, hlisted, hn, hview, hrelated⟩ := hhandled.reads target object field hkind
    obtain ⟨path, hc⟩ := hrelated.resolve_left (h.view_ne hn hview)
    exact ⟨n, view, hlisted, path, hn, hview, hc⟩
  writes object value field hkind := by
    refine ⟨h.accesses_of_handled hst hhandled (by rw [hkind]; rfl), ?_⟩
    obtain ⟨n, view, hlisted, hn, hview, hrelated⟩ := hhandled.writes object value field hkind
    obtain ⟨path, hc⟩ := hrelated.resolve_left (h.view_ne hn hview).symm
    exact ⟨n, view, hlisted, path, hn, hview, hc⟩

/-! ## Justification -/

/-- Whatever program is built with whatever settings and rules, and also if the build is stopped on the way, every
constraint is there because of statements that can be reached. -/
theorem build_justified {e : EntrypointId} {t : Setting} {cancelled : Bool} {stats : BuildStats}
    (hok : (({ entrypoint := e } : FlowGraph).build t cancelled).result = .ok stats) :
    let g := (({ entrypoint := e } : FlowGraph).build t cancelled).graph
    g.entrypoint = e ∧ (∀ c ∈ g.constraints, g.Justified t c) ∧ ∀ q slot n, g.valueNode? q slot = some n →
      g.kind? n = some (.value q slot (t.program.literal? q slot)) := by
  rcases build_cases e t cancelled with ⟨_, _, hsound, hentrypoint, _⟩ | ⟨err, herror, _⟩
  · exact ⟨hentrypoint, hsound.constraints, fun q slot n => hsound.kind?_value⟩
  · rw [hok] at herror
    cases herror

/-- A method that appends a text. -/
def appendMethod : MethodSignature := ⟨"java.lang.StringBuilder.append(Ljava/lang/String;)Ljava/lang/StringBuilder;"⟩

/-- A program that passes a text to another procedure, which appends it to a string builder and returns that. The
caller stores it in the field of an object. -/
def passingProgram : Program := GraphDocument.program
  { statements :=
      [⟨0, 0, .paramCaller 1 0 5⟩, ⟨1, 1, .paramCallee 0 2⟩,
        ⟨2, 1, .normal (.invoke ⟨appendMethod, false, [3, 2], some 4, true⟩)⟩, ⟨3, 1, .normalReturnCallee 4⟩,
        ⟨4, 0, .normalReturnCaller 1 6⟩, ⟨5, 0, .normal (.putField (some 7) 6 ⟨"app.Store", "text"⟩)⟩]
    edges := [(0, 1), (1, 2), (2, 3), (3, 4), (4, 5)] }

theorem passingProgram_justified :
    let g := (({ entrypoint := 9 } : FlowGraph).build ⟨passingProgram, {}, {}⟩ false).graph
    g.constraints.toList.map (fun c => (c.kind, c.path)) =
        [(.eq, [⟨9, 0⟩, ⟨9, 1⟩]), (.geAppend, [⟨9, 2⟩]), (.eq, [⟨9, 2⟩]), (.eq, [⟨9, 3⟩, ⟨9, 4⟩]), (.eq, [⟨9, 5⟩])] ∧
      ∀ c ∈ g.constraints, g.Justified ⟨passingProgram, {}, {}⟩ c := by
  have hok : (({ entrypoint := 9 } : FlowGraph).build ⟨passingProgram, {}, {}⟩ false).result.toOption.isSome := by
    decide +kernel
  obtain ⟨stats, hok⟩ := Option.isSome_iff_exists.mp hok
  exact ⟨by decide +kernel, (build_justified (eq_ok_of_toOption hok)).2.1⟩

/-! ## Completeness -/

/-- A build from a dependence graph that succeeds and is not stopped handles exactly the statements that can be reached
from the roots, and each of them leaves what it has to. -/
theorem build_complete {L : DigraphLibrary Statement} {d : DependenceGraph L} {cancelAt : Option StatementId}
    {e : EntrypointId} {t : Setting} {cancelled : Bool} {stats : BuildStats}
    (hprogram : t.program = d.toProgram cancelAt)
    (hok : (({ entrypoint := e } : FlowGraph).build t cancelled).result = .ok stats)
    (hrunning : stats.cancelled = false) :
    let g := (({ entrypoint := e } : FlowGraph).build t cancelled).graph
    (∀ id, id ∈ ({ entrypoint := e } : FlowGraph).handledBy t cancelled ↔ t.program.Reachable id) ∧
      ∀ id, t.program.Reachable id →
        ∃ st, t.program.statement? id = some st ∧ st.id = id ∧ g.Leaves st := by
  have hreaches : ∀ {id}, t.program.Reaches id ∧ (t.program.statement? id).isSome ↔ t.program.Reachable id :=
    Program.reaches_iff (hprogram ▸ fun _ => d.isSome_of_reachable cancelAt)
  rcases build_cases e t cancelled with ⟨stats', hok', hsound, _, hhandled⟩ | ⟨err, herror, _⟩
  · cases hok.symm.trans hok'
    obtain ⟨hexact, hleft⟩ := hhandled (.inr hrunning)
    refine ⟨fun id => (hexact id).trans hreaches, fun id hid => ?_⟩
    obtain ⟨hreach, hknown⟩ := hreaches.mpr hid
    obtain ⟨st, hst⟩ := Option.isSome_iff_exists.mp hknown
    have hruns := hreach.runs hst
    exact ⟨st, hst, t.program.id_of_statement? hst, leaves_of_handled hsound hruns.2 (hleft _ _ _ hruns)⟩
  · rw [hok] at herror
    cases herror

/-- A program in which two branches and a loop join. The gate holds the join back once. -/
def loopingProgram : Program := GraphDocument.program
  { statements :=
      [⟨0, 0, .normal (.checkCast 2 1)⟩, ⟨1, 0, .normal (.getField 3 none ⟨"app.Store", "text"⟩)⟩,
        ⟨2, 0, .phi 4 [some 2, some 3, none]⟩, ⟨3, 0, .normal (.putField none 4 ⟨"app.Store", "text"⟩)⟩]
    edges := [(0, 2), (1, 2), (2, 3), (3, 2)] }

theorem loopingProgram_complete :
    let t : Setting := ⟨loopingProgram, {}, {}⟩
    let outcome := ({ entrypoint := 0 } : FlowGraph).build t false
    ∃ stats, outcome.result = .ok stats ∧ stats.cancelled = false ∧ stats.gated = 1 ∧
      (∀ id, id ∈ ({ entrypoint := 0 } : FlowGraph).handledBy t false ↔ t.program.Reachable id) ∧
      outcome.graph.Leaves ⟨2, 0, .phi 4 [some 2, some 3, none]⟩ := by
  intro t outcome
  have hcounts : outcome.result.toOption.map (fun stats => (stats.cancelled, stats.gated)) = some (false, 1) := by
    decide +kernel
  obtain ⟨stats, hok, hstats⟩ := Option.map_eq_some_iff.mp hcounts
  obtain ⟨hrunning, hgated⟩ := Prod.mk.inj hstats
  have hok := eq_ok_of_toOption hok
  obtain ⟨hexact, hleaves⟩ := build_complete (t := t) rfl hok hrunning
  have hjoin : t.program.Reachable 2 := (hexact 2).mp (by decide +kernel)
  have hphi : t.program.statement? 2 = some ⟨2, 0, .phi 4 [some 2, some 3, none]⟩ := by decide +kernel
  obtain ⟨st, hst, -, hleft⟩ := hleaves 2 hjoin
  cases hst.symm.trans hphi
  exact ⟨stats, hok, hrunning, hgated, hexact, hleft⟩

end FlowGraph

end SinkFlow
