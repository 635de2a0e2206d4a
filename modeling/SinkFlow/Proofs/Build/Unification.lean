import SinkFlow.Proofs.Build.Views

/-!
Which views a run unifies. It has seen exactly those that it has made and those that stand for the fields of the heap
statements that it has handled, however often and whichever run made them, and any two of one field are related.
-/

namespace SinkFlow

/-- The statements that were handled since an earlier state, last one first. -/
def BuildState.handledSince (s' s : BuildState) : List StatementId :=
  s'.handled.take (s'.handled.length - s.handled.length)

/-- A run that leads from one state to another one unifies a view of a field: the run makes it, or it stands for the
field in the procedure of a heap statement that the run handles. -/
inductive Build.Unifies (t : Setting) (s s' : BuildState) (field : FieldSignature) (n : NodeId) : Prop where
  | made (hnew : s.graph.kind? n = none) (hview : s'.graph.Shows n field)
  | stands {id : StatementId} {st : Statement} (hid : id ∈ s'.handledSince s) (hst : t.program.statement? id = some st)
      (hfield : t.program.represented? st = some field)
      (hn : (s'.graph.scope st.procedure).statics.get? field = some n)

namespace Build

open GraphTables

variable {t : Setting} {s s' c c' : BuildState} {fresh : NodeId → FieldSignature → Prop} {field : FieldSignature}

/-! ## The statements of a run -/

theorem handledSince_eq {run : List StatementId} (h : c.handled = run ++ s.handled) : c.handledSince s = run := by
  simp [BuildState.handledSince, h]

theorem handledSince_append {more : List StatementId} (h : s.handled <:+ c.handled)
    (hlog : c'.handled = more ++ c.handled) : c'.handledSince s = more ++ c.handledSince s := by
  obtain ⟨run, hrun⟩ := h
  rw [handledSince_eq hrun.symm]
  exact handledSince_eq (by rw [hlog, ← hrun, List.append_assoc])

/-! ## The views of a run -/

theorem Unifies.mono {n : NodeId} {more : List StatementId} (h : Unifies t s c field n)
    (hsince : c'.handledSince s = more ++ c.handledSince s) (hl : c.graph.AddsViews fresh c'.graph) :
    Unifies t s c' field n := by
  cases h with
  | made hnew hview => exact .made hnew (hview.mono hl.extended)
  | stands hid hst hfield hn =>
      exact .stands (hsince ▸ List.mem_append_right more hid) hst hfield (hl.statics _ _ _ hn)

/-- A run is on its way: it has seen exactly the views that it unifies, and any two of them that are of one field are
related. -/
structure Unifying (t : Setting) (s c : BuildState) : Prop where
  phase : c.graph.phase = .building
  wellFormed : c.graph.WellFormed
  extended : s.graph.Extends c.graph
  log : s.handled <:+ c.handled
  standing : ∀ id ∈ c.handledSince s, ∀ st field, t.program.statement? id = some st →
    t.program.represented? st = some field → ((c.graph.scope st.procedure).statics.get? field).isSome
  seen : ∀ field n, n ∈ c.seen field ↔ Unifies t s c field n
  linked : ∀ field, ∀ n ∈ c.seen field, ∀ m ∈ c.seen field, c.graph.Related n .eq m ∨ c.graph.Related m .eq n

namespace Unifying

theorem shows (h : Unifying t s c) {n : NodeId} (hn : Unifies t s c field n) : c.graph.Shows n field := by
  cases hn with
  | made _ hview => exact hview
  | stands _ _ _ hn =>
      obtain ⟨k, hkind⟩ := h.wellFormed.statics _ _ _ hn
      exact ⟨_, hkind, rfl⟩

theorem ready (h : Unifying t s c) : Ready c where
  phase := h.phase
  wellFormed := h.wellFormed
  seen field n hn := (h.shows ((h.seen field n).mp hn)).node?_isSome

theorem start (hphase : s.graph.phase = .building) (hs : s.graph.WellFormed) :
    Unifying t s { s with pairing := {} } where
  phase := hphase
  wellFormed := hs
  extended := .refl _
  log := List.suffix_refl _
  standing id hid := by simp [BuildState.handledSince] at hid
  seen field n := by
    have hnone : n ∉ ({ s with pairing := {} } : BuildState).seen field := nofun
    refine ⟨fun hn => absurd hn hnone, fun hn => ?_⟩
    cases hn with
    | made hnew hview =>
        obtain ⟨kind, hkind, _⟩ := hview
        cases hnew.symm.trans hkind
    | stands hid => simp [BuildState.handledSince] at hid
  linked _ _ hn := by cases hn

/-- A step goes on with a run if the views that it sees are unified, one of a field at most. -/
theorem step (h : Unifying t s c) {more : List StatementId} (hlog : c'.handled = more ++ c.handled)
    (hsights : Sights fresh c c') (hfresh : ∀ field n, fresh n field → Unifies t s c' field n)
    (hone : ∀ field n m, fresh n field → fresh m field → n = m)
    (hstands : ∀ id ∈ more, ∀ st field, t.program.statement? id = some st → t.program.represented? st = some field →
      ∃ n, fresh n field ∧ (c'.graph.scope st.procedure).statics.get? field = some n) : Unifying t s c' := by
  have hl := hsights.graph
  have hsince := handledSince_append h.log hlog
  refine ⟨hl.extended.phase.trans h.phase, hl.wellFormed h.wellFormed, h.extended.trans hl.extended, ?_, ?_, ?_, ?_⟩
  · exact h.log.trans ⟨more, hlog.symm⟩
  · intro id hid st field hst hfield
    rw [hsince] at hid
    rcases List.mem_append.mp hid with hid | hid
    · obtain ⟨n, _, hn⟩ := hstands id hid st field hst hfield
      simp [hn]
    · obtain ⟨n, hn⟩ := Option.isSome_iff_exists.mp (h.standing id hid st field hst hfield)
      simp [hl.statics _ _ _ hn]
  · intro field n
    rw [hsights.seen]
    constructor
    · rintro (hn | hn)
      · exact ((h.seen field n).mp hn).mono hsince hl
      · exact hfresh field n hn
    · intro hn
      cases hn with
      | made hnew hview =>
          exact (hl.shows n field hview).imp_left fun hview => (h.seen field n).mpr (.made hnew hview)
      | stands hid hst hfield hn =>
          rw [hsince] at hid
          rcases List.mem_append.mp hid with hid | hid
          · obtain ⟨m, hm, hstatic⟩ := hstands _ hid _ field hst hfield
            cases hn.symm.trans hstatic
            exact .inr hm
          · -- What stood for the field when the statement was handled still does.
            obtain ⟨m, hm⟩ := Option.isSome_iff_exists.mp (h.standing _ hid _ field hst hfield)
            cases hn.symm.trans (hl.statics _ _ _ hm)
            exact .inl ((h.seen field n).mpr (.stands hid hst hfield hm))
  · intro field n hn m hm
    rcases (hsights.seen field n).mp hn with hn | hn <;> rcases (hsights.seen field m).mp hm with hm | hm
    · exact (h.linked field n hn m hm).imp (.mono hl.extended) (.mono hl.extended)
    · exact .inr (hsights.related field m hm n hn)
    · exact .inl (hsights.related field n hn m hm)
    · exact .inl (.inl (hone field n m hn hm))

/-- A statement that is handled goes on with a run. -/
theorem visited (h : Unifying t s c) {id : StatementId} {statement : Statement}
    (hst : t.program.statement? id = some statement) (hlog : c'.handled = [id] ++ c.handled)
    (hviews : Views t statement c c') : Unifying t s c' := by
  have hone : ∀ {view : NodeId} {field : FieldSignature} field' n m, only view field n field' →
      only view field m field' → n = m := fun _ _ _ hn hm => hn.1.trans hm.1.symm
  have hlisted : ∀ id' ∈ [id], ∀ st, t.program.statement? id' = some st → st = statement := by
    intro id' hid' st hst'
    cases List.mem_singleton.mp hid'
    exact Option.some.inj (hst'.symm.trans hst)
  cases hviews with
  | none hnone hsights =>
      refine h.step hlog hsights (fun _ _ => False.elim) (fun _ _ _ => False.elim) ?_
      intro id' hid' st field hst' hfield
      rw [hlisted id' hid' st hst', hnone] at hfield
      cases hfield
  | access hnone hnew hview hsights =>
      refine h.step hlog hsights ?_ hone fun id' hid' st field hst' hfield => ?_
      · rintro _ _ ⟨rfl, rfl⟩
        exact .made (h.extended.kind?_eq_none hnew) hview
      · rw [hlisted id' hid' st hst', hnone] at hfield
        cases hfield
  | stands hfield hview hsights =>
      refine h.step hlog hsights ?_ hone fun id' hid' st field hst' hfield' => ?_
      · rintro _ _ ⟨rfl, rfl⟩
        have hid : id ∈ c'.handledSince s := by simp [handledSince_append h.log hlog]
        exact .stands hid hst hfield hview
      · cases hlisted id' hid' st hst'
        cases hfield.symm.trans hfield'
        exact ⟨_, ⟨rfl, rfl⟩, hview⟩

/-- Counting, and asking a build to stop, do not matter to a run. -/
theorem congr (h : Unifying t s c) (hgraph : c'.graph = c.graph) (hpairing : c'.pairing = c.pairing)
    (hhandled : c'.handled = c.handled) : Unifying t s c' := by
  have hlog : c'.handled = [] ++ c.handled := hhandled
  have hsame : Overlooks (fun _ _ => False) c c' := by
    refine ⟨?_, ?_⟩
    · rw [hgraph]
      exact (viewing _).refl c.graph
    · rw [hpairing]
  exact h.step hlog hsame.sights (fun _ _ => False.elim) (fun _ _ _ => False.elim) nofun

end Unifying

/-- A run goes on with every statement, also with one that is refused. -/
theorem unifying_process (t : Setting) (s : BuildState) (id : StatementId) :
    (Course.keeping (Unifying t s)).Follows (process t id) := by
  intro c h
  have hprocesses := processes t id c
  generalize ((process t id).run c).2 = c' at hprocesses ⊢
  cases hprocesses with
  | unknown => exact h.congr rfl rfl rfl
  | known hst =>
      rename_i statement gate cancelled stats
      let c₁ : BuildState := { c with gate, cancelled, handled := id :: c.handled }
      have hlisted : Overlooks (fun _ _ => False) c c₁ := ⟨(viewing _).refl c.graph, rfl⟩
      have hviews := (views_visit (t := t) (h.ready.mono hlisted) statement).after hlisted
      have hhandled := (performs_visit t statement).handled c₁
      generalize ((visit t statement).run c₁).2 = c₂ at hviews hhandled ⊢
      exact (h.visited hst hhandled hviews).congr rfl rfl rfl

theorem RunsFrom.unifying {e : EntrypointId} {cancelled : Bool} {root : StatementId}
    (h : RunsFrom e t cancelled root s s') : Unifying t s s' := by
  obtain ⟨hphase, hs⟩ := h.begins
  rw [← h.ended, runRoot, run_modify_bind]
  exact follows_explore (unifying_process t s) _ _ _ _ (.start hphase hs)

end Build

end SinkFlow
