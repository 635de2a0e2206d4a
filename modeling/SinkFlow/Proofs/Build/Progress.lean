import SinkFlow.Proofs.Build.Coverage
import SinkFlow.Proofs.Build.Drawing
import SinkFlow.Proofs.Build.Effects

/-!
Builds that may fail. Whatever every statement does to the state, also one that is refused, leads from any state of a
build to the one in which the build ends. So a build extends the graph that any of its runs leaves, and nothing is
known in the graph in the end.
-/

namespace SinkFlow

theorem StatementKind.Performs.builds {p : Program} {kind : StatementKind} {op : GraphTables.Operation}
    (h : kind.Performs p op) : op.Builds p := by
  unfold StatementKind.Performs at h
  split at h
  · exact h.imp_right .inr
  · exact h.imp_right .inl

namespace GraphTables

variable {g g' : GraphTables} {op : Operation} {p : Program}

theorem factsAt_attachChain {m : NodeId} {id : ChainId} (hg : g.attachChain m id = .ok g') (n : NodeId) :
    g'.factsAt n = g.factsAt n := by
  rw [(attachChain_eq_ok_iff.mp hg).2]
  refine factsAt_editRecord g m ?_ n
  exact fun _ => rfl

/-- Building teaches no node anything. -/
theorem factsAt_perform (hop : op.Builds p) (hg : g.perform op = .ok g') (n : NodeId) :
    g'.factsAt n = g.factsAt n := by
  have hpush : ∀ (kind : NodeKind) (scopes : Table ProcedureId Scope),
      ({ (g.pushNode kind).2 with scopes } : GraphTables).factsAt n = g.factsAt n := fun kind _ => factsAt_push g kind n
  rcases hop with hop | hop | hop | hop
  · cases hop with
    | value q slot =>
        cases hg
        unfold valueNode
        split
        · rfl
        · exact hpush _ _
    | standIn q tag => cases hg; exact hpush _ _
    | relation target kind source path =>
        obtain ⟨⟨r, _⟩, hadd, rfl⟩ := exists_of_map_eq_ok hg
        obtain ⟨_, _, _, ⟨_, _, rfl⟩ | ⟨_, _, rfl⟩ | ⟨_, _, _, rfl⟩⟩ := addConstraint_cases hadd
        · rfl
        · rfl
        · exact factsAt_pushConstraint g _ n
  · cases hop with
    | object q o field | static q field => cases hg; exact hpush _ _
    | representative q field =>
        cases hg
        unfold representative
        split
        · rfl
        · exact hpush _ _
    | incoming | outgoing | access => cases hg; rfl
  · cases hop with
    | begin m =>
        obtain ⟨⟨id, _⟩, hchain, rfl⟩ := exists_of_map_eq_ok hg
        rcases chainFor_cases hchain with ⟨_, rfl⟩ | ⟨_, hattach⟩
        · rfl
        · exact (factsAt_attachChain hattach n).trans (factsAt_congr rfl n)
    | attach m id => exact factsAt_attachChain hg n
    | push => cases hg; rfl
  · cases hop with
    | special m =>
        obtain ⟨_, rfl⟩ := markSpecial_eq_ok_iff.mp hg
        exact factsAt_congr rfl n
    | site site =>
        cases hg
        unfold registerSink
        split <;> rfl

/-- The course of a build, on which nothing is learnt. -/
def drafting : Course GraphTables where
  leads g g' := building.leads g g' ∧ ∀ n, g'.factsAt n = g.factsAt n
  refl g := ⟨building.refl g, fun _ => rfl⟩
  trans h h' := ⟨building.trans h.1 h'.1, fun n => (h'.2 n).trans (h.2 n)⟩

end GraphTables

namespace Build

open GraphTables

variable {t : Setting} {C : Course BuildState} {s s' : BuildState} {id root : StatementId}

/-! ## One statement -/

/-- What a statement that is taken from the queue does to the state. If it can be looked up, it is listed and handled,
and this may fail. -/
inductive Processes (t : Setting) (id : StatementId) (s : BuildState) : BuildState → Prop where
  | unknown {cancelled : Bool} {stats : BuildStats} (hunknown : t.program.statement? id = none) :
      Processes t id s { s with cancelled, stats }
  | known {statement : Statement} {gate : Gate} {cancelled : Bool} {stats : BuildStats}
      (hknown : t.program.statement? id = some statement) :
      Processes t id s
        { ((visit t statement).run { s with gate, cancelled, handled := id :: s.handled }).2 with stats }

theorem run_lookUp (p : Program) (id : StatementId) (s : BuildState) :
    ∃ cancelled, (lookUp p id).run s = (.ok (p.statement? id), { s with cancelled }) := by
  unfold lookUp
  dsimp only
  split
  · exact ⟨true, rfl⟩
  · exact ⟨s.cancelled, rfl⟩

theorem processes (t : Setting) (id : StatementId) (s : BuildState) : Processes t id s ((process t id).run s).2 := by
  obtain ⟨cancelled, hlookUp⟩ := run_lookUp t.program id s
  unfold process
  rw [run_bind, hlookUp]
  cases hstatement : t.program.statement? id with
  | none => exact .unknown hstatement
  | some statement =>
      dsimp only
      rw [run_get_bind, run_modify_bind, run_bind]
      have hknown (stats : BuildStats) := @Processes.known t id s statement
        (s.gate.arrive id (t.program.predecessorCount id)).2 cancelled stats hstatement
      rcases hrun : (visit t statement).run _ with ⟨r, s₂⟩
      rw [hrun] at hknown
      cases r with
      | error e => exact hknown s₂.stats
      | ok _ =>
          dsimp only
          split
          · exact hknown _
          · exact hknown s₂.stats

/-- A course of the tables of the graph that is being built. -/
def tables (C : Course GraphTables) : Course BuildState := C.along fun s => s.graph.toGraphTables

/-- What a statement of any kind keeps, a step of a build keeps that takes a statement from the queue. -/
theorem drafting_process (t : Setting) (id : StatementId) :
    (tables drafting).Follows (process t id) := by
  intro s
  have hprocesses := processes t id s
  generalize ((process t id).run s).2 = s' at hprocesses ⊢
  cases hprocesses with
  | unknown => exact drafting.refl _
  | known =>
      rename_i statement gate cancelled _ _
      let s₁ : BuildState := { s with gate, cancelled, handled := id :: s.handled }
      refine (performs_visit t statement).leads (C := drafting) (fun op hop g g' hg => ?_) s₁
      exact ⟨building_perform (t := t) hop.builds hg, factsAt_perform hop.builds hg⟩

/-! ## Runs -/

theorem follows_explore (hprocess : ∀ id, C.Follows (process t id)) (limit : Nat) (queue visited : List StatementId) :
    C.Follows (explore t limit queue visited) := by
  induction limit generalizing queue visited with
  | zero => exact .pure _
  | succ limit ih =>
      cases queue with
      | nil => exact .pure _
      | cons id queue =>
          rw [explore_cons]
          exact .bind (hprocess id) fun expand => ih _ _

theorem follows_runRoot (hprocess : ∀ id, C.Follows (process t id)) (hempty : ∀ s, C.leads s { s with pairing := {} })
    (root : StatementId) : C.Follows (runRoot t root) :=
  .bind (.modify hempty) fun _ => follows_explore hprocess _ _ _

theorem follows_runRoots (hprocess : ∀ id, C.Follows (process t id)) (hempty : ∀ s, C.leads s { s with pairing := {} })
    (hcount : ∀ f, C.Follows (count f)) (roots : List StatementId) : C.Follows (runRoots t roots) := by
  induction roots with
  | nil => exact .pure _
  | cons root roots ih =>
      refine .get_bind fun s => ?_
      split
      · exact hcount _
      · exact .bind (follows_runRoot hprocess hempty root) fun _ => ih

theorem drafting_runRoots (t : Setting) (roots : List StatementId) :
    (tables drafting).Follows (runRoots t roots) :=
  follows_runRoots (drafting_process t) (fun s => drafting.refl s.graph) (fun _ s => drafting.refl s.graph) roots

/-- The state in which the first run of a build begins. -/
def begun (e : EntrypointId) (t : Setting) (cancelled : Bool) : BuildState where
  graph := { entrypoint := e, phase := .building }
  stats := { roots := t.program.roots.length }
  cancelled

/-- A run of a build from a root leads from one state to another one. The runs before it have succeeded, and the build
has not been asked to stop; the run itself may fail. -/
structure RunsFrom (e : EntrypointId) (t : Setting) (cancelled : Bool) (root : StatementId) (s s' : BuildState) :
    Prop where
  reached : ∃ earlier later, t.program.roots = earlier ++ root :: later ∧
    (runRoots t earlier).run (begun e t cancelled) = (.ok (), s)
  running : s.cancelled = false
  ended : ((runRoot t root).run s).2 = s'

theorem runRoots_cons (root : StatementId) (roots : List StatementId) (hrunning : s.cancelled = false) :
    (runRoots t (root :: roots)).run s = (runRoot t root >>= fun _ => runRoots t roots).run s := by
  rw [runRoots, run_get_bind, hrunning]
  rfl

theorem runRoots_stopped (root : StatementId) (roots : List StatementId) (hstopped : s.cancelled = true) :
    ((runRoots t (root :: roots)).run s).2.cancelled = true := by
  rw [runRoots, run_get_bind, hstopped]
  exact hstopped

/-- A build that was not asked to stop goes on with the next roots. -/
theorem runRoots_append {earlier later : List StatementId} {s₀ : BuildState}
    (hrun : (runRoots t earlier).run s₀ = (.ok (), s)) (hrunning : s.cancelled = false) :
    (runRoots t (earlier ++ later)).run s₀ = (runRoots t later).run s := by
  induction earlier generalizing s₀ with
  | nil =>
      cases hrun
      rfl
  | cons root earlier ih =>
      cases hstart : s₀.cancelled with
      | true =>
          have hstopped := runRoots_stopped (t := t) root earlier hstart
          rw [hrun, hrunning] at hstopped
          cases hstopped
      | false =>
          rw [runRoots_cons root _ hstart, run_bind] at hrun
          rw [List.cons_append, runRoots_cons root _ hstart, run_bind]
          rcases hfirst : (runRoot t root).run s₀ with ⟨r, s₁⟩
          rw [hfirst] at hrun
          cases r with
          | error e => cases hrun
          | ok _ => exact ih hrun

end Build

namespace FlowGraph

variable {e : EntrypointId} {t : Setting} {cancelled : Bool} {root : StatementId} {s s' : BuildState}

theorem graph_build (e : EntrypointId) (t : Setting) (cancelled : Bool) :
    (({ entrypoint := e } : FlowGraph).build t cancelled).graph =
      ((Build.runRoots t t.program.roots).run (Build.begun e t cancelled)).2.graph := by
  have hbegin : (Build.edit (Edit.attemptUpdate (·.beginBuilding))).run { graph := { entrypoint := e }, cancelled } =
      (.ok (), { graph := { entrypoint := e, phase := .building }, cancelled }) := rfl
  change ((Build.complete t).run { graph := { entrypoint := e }, cancelled }).2.graph = _
  rw [Build.complete, run_bind, hbegin, Build.begun]
  dsimp only
  rw [Build.count, run_modify_bind, run_bind]
  rcases (Build.runRoots t t.program.roots).run _ with ⟨r, s⟩
  cases r <;> rfl

/-- Nothing is known in a graph that was built, whether the build succeeded or failed. -/
theorem blank_build (e : EntrypointId) (t : Setting) (cancelled : Bool) (n : NodeId) (i : Item) :
    ((({ entrypoint := e } : FlowGraph).build t cancelled).graph.factsAt n).has i = false := by
  have hl := Build.drafting_runRoots t t.program.roots (Build.begun e t cancelled)
  rw [graph_build, hl.2]
  rfl

end FlowGraph

/-- A run begins with a graph that is being built and is well-formed. -/
theorem Build.RunsFrom.begins {e : EntrypointId} {t : Setting} {cancelled : Bool} {root : StatementId}
    {s s' : BuildState} (h : RunsFrom e t cancelled root s s') : s.graph.phase = .building ∧ s.graph.WellFormed := by
  obtain ⟨⟨earlier, later, _, hearlier⟩, _, _⟩ := h
  have hl := drafting_runRoots t earlier (begun e t cancelled)
  rw [hearlier] at hl
  exact ⟨hl.1.1.phase, hl.1.2 (GraphTables.wellFormed_begun e)⟩

/-- What a run leaves is still there when the build ends, whether it succeeds or fails. -/
theorem Build.RunsFrom.extended {e : EntrypointId} {t : Setting} {cancelled : Bool} {root : StatementId}
    {s s' : BuildState} (h : RunsFrom e t cancelled root s s') :
    s'.graph.Extends (({ entrypoint := e } : FlowGraph).build t cancelled).graph := by
  obtain ⟨⟨earlier, later, hroots, hearlier⟩, hrunning, rfl⟩ := h
  rw [FlowGraph.graph_build, hroots, runRoots_append hearlier hrunning, runRoots_cons _ _ hrunning, run_bind]
  rcases hrun : (runRoot t root).run s with ⟨r, s₁⟩
  cases r with
  | error err => exact .refl _
  | ok _ => exact (drafting_runRoots t later s₁).1.1

end SinkFlow
