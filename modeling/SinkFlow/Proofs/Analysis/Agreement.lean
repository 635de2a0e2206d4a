import SinkFlow.Proofs.Analysis.Saturation
import SinkFlow.Proofs.Build.Unification

/-!
Views of one field agree. Any two views that a run unifies are related in the graph that the build leaves, and since
facts flow both ways between them, they know the same after propagation.
-/

namespace SinkFlow

/-- Views can learn. -/
theorem GraphTables.Shows.isOpen {g : GraphTables} {n : NodeId} {field : FieldSignature} (h : g.Shows n field) :
    g.isOpen n := by
  obtain ⟨kind, hkind, hfield⟩ := h
  obtain ⟨v, hv, rfl⟩ := Option.map_eq_some_iff.mp hkind
  cases hk : v.kind <;> simp_all [GraphTables.isOpen, Node.isConstant, Node.literal?, NodeKind.literal?, NodeKind.field?]

namespace FlowGraph

variable {g : FlowGraph} {n m : NodeId}

/-- Facts flow both ways between two nodes that can learn and are related as equal. -/
theorem has_iff_of_related (hserved : ∀ n i, (g.factsAt n).has i → Served g n i) (hn : g.isOpen n) (hm : g.isOpen m)
    (hr : g.Related n .eq m) (i : Item) : (g.factsAt n).has i ↔ (g.factsAt m).has i := by
  rcases hr with rfl | ⟨path, hc⟩
  · rfl
  · let c : Constraint := ⟨n, .eq, m, path⟩
    have hback : (g.factsAt c.target).has i → (g.factsAt c.source).has i := fun hi =>
      (hserved n i hi).direct c (mem_constraintsInto.mpr ⟨hc, rfl, rfl⟩) (.inl rfl) hm
    have hforth : (g.factsAt c.source).has i → (g.factsAt c.target).has i := fun hi =>
      (hserved m i hi).forward c (mem_constraintsFrom.mpr ⟨hc, rfl⟩) hn
    exact ⟨hback, hforth⟩

/-- Whatever program is built, and whether the build succeeds, fails or is stopped, each run sees exactly the views
that it makes and those that stand for the fields of the heap statements that it handles. Of one field, any two of
them are related, and after a propagation that was not stopped at the limit they have the same items in each facet. -/
theorem views_agree {e : EntrypointId} {t : Setting} {cancelled : Bool} {root : StatementId} {s s' : BuildState}
    (hrun : Build.RunsFrom e t cancelled root s s') (field : FieldSignature) :
    let built := (({ entrypoint := e } : FlowGraph).build t cancelled).graph
    (∀ n, n ∈ s'.seen field ↔ Build.Unifies t s s' field n) ∧
      (∀ n m, Build.Unifies t s s' field n → Build.Unifies t s s' field m → n ≠ m →
        ∃ path, ⟨n, .eq, m, path⟩ ∈ built.constraints ∨ ⟨m, .eq, n, path⟩ ∈ built.constraints) ∧
      ∀ p fields collected cap stats g, built.collectFields p = (.ok fields, collected) →
        collected.propagate cap = .ok (stats, g) → stats.truncated = false →
          ∀ n m, Build.Unifies t s s' field n → Build.Unifies t s s' field m →
            ∀ facet i, ((g.factsAt n).only facet).has i = ((g.factsAt m).only facet).has i := by
  intro built
  have hunifying := hrun.unifying
  have hext := hrun.extended
  have hlinked : ∀ n m, Build.Unifies t s s' field n → Build.Unifies t s s' field m →
      built.Related n .eq m ∨ built.Related m .eq n := by
    intro n m hn hm
    have hlinked := hunifying.linked field n ((hunifying.seen field n).mpr hn) m ((hunifying.seen field m).mpr hm)
    exact hlinked.imp (.mono hext) (.mono hext)
  refine ⟨hunifying.seen field, fun n m hn hm hne => ?_, ?_⟩
  · rcases hlinked n m hn hm with hr | hr
    · obtain ⟨path, hc⟩ := hr.resolve_left hne
      exact ⟨path, .inl hc⟩
    · obtain ⟨path, hc⟩ := hr.resolve_left hne.symm
      exact ⟨path, .inr hc⟩
  · intro p fields collected cap stats g hcollect hprop htruncated n m hn hm facet i
    have hawaited := awaited_collectFields (blank_build e t cancelled) hcollect
    have hserved : ∀ n i, (g.factsAt n).has i → Served g n i := fun n i => served_propagate hawaited hprop htruncated
    have hshape := shape_propagate hcollect hprop
    have hopen : ∀ n, Build.Unifies t s s' field n → g.isOpen n :=
      fun n hn => (hshape.isOpen n).trans (GraphTables.Shows.mono hext (hunifying.shows hn)).isOpen
    have hrelated : ∀ {n m : NodeId}, built.Related n .eq m → g.Related n .eq m := by
      intro n m hr
      rw [GraphTables.Related, hshape.constraints]
      exact hr
    have hsame : (g.factsAt n).has i ↔ (g.factsAt m).has i := by
      rcases hlinked n m hn hm with hr | hr
      · exact has_iff_of_related hserved (hopen n hn) (hopen m hm) (hrelated hr) i
      · exact (has_iff_of_related hserved (hopen m hm) (hopen n hn) (hrelated hr) i).symm
    simp only [Facts.only, Facts.has_filter, Bool.eq_iff_iff.mpr hsame]

/-- A graph whose fields can be collected can be propagated without a limit. -/
theorem exists_propagated {built : FlowGraph} {p : Program} (h : (built.collectFields p).1.toOption.isSome) :
    ∃ fields collected stats g, built.collectFields p = (.ok fields, collected) ∧
      collected.propagate 0 = .ok (stats, g) ∧ stats.truncated = false := by
  obtain ⟨fields, hfields⟩ := Option.isSome_iff_exists.mp h
  have hcollect : built.collectFields p = (.ok fields, (built.collectFields p).2) :=
    Prod.ext (eq_ok_of_toOption hfields) rfl
  refine ⟨fields, _, _, _, hcollect, propagate_eq_ok_iff.mpr ⟨?_, rfl, rfl⟩, Propagation.complete_truncated _⟩
  exact (shape_collectFields hcollect).phase

/-- A static field. -/
def sharedField : FieldSignature := ⟨"app.Store", "text"⟩

/-- A program in which one root writes a text to a static field and the other one reads the field. Both lead to a heap
statement of another procedure for the field. -/
def sharedFieldProgram : Program := GraphDocument.program
  { statements :=
      [⟨0, 0, .normal (.putField none 1 sharedField)⟩, ⟨1, 0, .normal (.getField 2 none sharedField)⟩,
        ⟨2, 1, .heapParamCallee (.staticField sharedField)⟩]
    edges := [(0, 2), (1, 2)]
    literals := [⟨0, 1, .text "secret"⟩]
    rootProcedure := some 0 }

/-- The second run makes a view, and comes again to the one that stands for the field since the first run. -/
theorem sharedFieldProgram_runs :
    ∃ s s', Build.RunsFrom 0 ⟨sharedFieldProgram, {}, {}⟩ false 1 s s' ∧ s.graph.Shows 2 sharedField ∧
      Build.Unifies ⟨sharedFieldProgram, {}, {}⟩ s s' sharedField 2 ∧
      Build.Unifies ⟨sharedFieldProgram, {}, {}⟩ s s' sharedField 4 := by
  have hruns :
      let first := (Build.runRoots ⟨sharedFieldProgram, {}, {}⟩ [0]).run
        (Build.begun 0 ⟨sharedFieldProgram, {}, {}⟩ false)
      let s' := ((Build.runRoot ⟨sharedFieldProgram, {}, {}⟩ 1).run first.2).2
      first.1.toOption = some () ∧ first.2.cancelled = false ∧
        first.2.graph.kind? 2 = some (.staticField 0 sharedField) ∧ first.2.graph.kind? 4 = none ∧
        s'.graph.kind? 4 = some (.staticField 1 sharedField) ∧
        2 ∈ s'.handledSince first.2 ∧ (s'.graph.scope 1).statics.get? sharedField = some 2 := by
    decide +kernel
  dsimp only at hruns
  rcases hfirst : (Build.runRoots ⟨sharedFieldProgram, {}, {}⟩ [0]).run
    (Build.begun 0 ⟨sharedFieldProgram, {}, {}⟩ false) with ⟨r, s⟩
  rw [hfirst] at hruns
  obtain ⟨hok, hrunning, hstood, hnew, hview, hhandled, hstands⟩ := hruns
  have hr : r = .ok () := eq_ok_of_toOption hok
  rw [hr] at hfirst
  have hheap : sharedFieldProgram.statement? 2 = some ⟨2, 1, .heapParamCallee (.staticField sharedField)⟩ := by
    decide +kernel
  refine ⟨s, _, ⟨⟨[0], [], by decide +kernel, hfirst⟩, hrunning, rfl⟩, ⟨_, hstood, rfl⟩, ?_, ?_⟩
  · exact .stands hhandled hheap rfl hstands
  · exact .made hnew ⟨_, hview, rfl⟩

theorem sharedFieldProgram_agree :
    let t : Setting := ⟨sharedFieldProgram, {}, {}⟩
    let built := (({ entrypoint := 0 } : FlowGraph).build t false).graph
    ∃ s s', Build.RunsFrom 0 t false 1 s s' ∧ s.graph.Shows 2 sharedField ∧ Build.Unifies t s s' sharedField 2 ∧
      Build.Unifies t s s' sharedField 4 ∧
      (∃ path, ⟨2, .eq, 4, path⟩ ∈ built.constraints ∨ ⟨4, .eq, 2, path⟩ ∈ built.constraints) ∧
      ∃ fields collected stats g, built.collectFields t.program = (.ok fields, collected) ∧
        collected.propagate 0 = .ok (stats, g) ∧ stats.truncated = false ∧
        ∀ facet i, ((g.factsAt 2).only facet).has i = ((g.factsAt 4).only facet).has i := by
  dsimp only
  have hcollects : ((({ entrypoint := 0 } : FlowGraph).build ⟨sharedFieldProgram, {}, {}⟩ false).graph.collectFields
      sharedFieldProgram).1.toOption.isSome := by
    decide +kernel
  obtain ⟨fields, collected, stats, g, hcollect, hprop, htruncated⟩ := exists_propagated hcollects
  obtain ⟨s, s', hrun, hstood, hstands, hmade⟩ := sharedFieldProgram_runs
  obtain ⟨_, hlinked, hsame⟩ := views_agree hrun sharedField
  have hagree := hsame _ fields collected 0 stats g hcollect hprop htruncated 2 4 hstands hmade
  have hne : (2 : NodeId) ≠ 4 := by decide
  exact ⟨s, s', hrun, hstood, hstands, hmade, hlinked 2 4 hstands hmade hne, fields, collected, stats, g, hcollect, hprop,
    htruncated, hagree⟩

end FlowGraph

end SinkFlow
