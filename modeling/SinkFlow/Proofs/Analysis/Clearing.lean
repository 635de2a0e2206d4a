import SinkFlow.Proofs.Analysis.Leak

/-!
Clearing loses nothing that a report needs. It keeps what views and sink operands know, and where fields are accessed.
A report starts from sink operands, and its searches come to views only, so they see no difference.
-/

namespace SinkFlow

section Sorting

variable {α β : Type} {le : α → α → Bool} {le' : β → β → Bool} {f : α → β}

theorem insertBy_map (h : ∀ a b, le' (f a) (f b) = le a b) (a : α) (as : List α) :
    insertBy le' (f a) (as.map f) = (insertBy le a as).map f := by
  induction as with
  | nil => rfl
  | cons b as ih =>
      simp only [List.map_cons, insertBy, h, ih]
      split <;> rfl

theorem sortBy_map (h : ∀ a b, le' (f a) (f b) = le a b) (as : List α) :
    sortBy le' (as.map f) = (sortBy le as).map f := by
  induction as with
  | nil => rfl
  | cons a as ih => rw [List.map_cons, sortBy, ih, insertBy_map h, sortBy]

end Sorting

/-! ## Cleared graphs -/

open GraphTables (SameShape)

namespace FlowGraph

open GraphTables (isKept_of_isField isKept_of_special outgoingViews incomingViews)

variable {g g' built : FlowGraph} {n : NodeId} {e : EntrypointId} {t : Setting} {cancelled : Bool}

theorem clear_eq_cleared (h : g.phase = .propagated) : g.clear = .ok g.cleared := clear_eq_ok_iff.mpr ⟨h, rfl⟩

theorem record?_cleared (h : g.isKept n) :
    g.cleared.record? n = (g.record? n).map NodeRecord.stripped :=
  (GraphTables.record?_cleared g n).trans (if_pos h)

theorem factsAt_cleared (h : g.isKept n) : g.cleared.factsAt n = g.factsAt n := by
  rw [GraphTables.factsAt, GraphTables.factsAt, record?_cleared h, Option.map_map]
  rfl

theorem expectNode_cleared (g : FlowGraph) (n : NodeId) : g.cleared.expectNode n = g.expectNode n := rfl

/-! ## Graphs that keep what reports need -/

/-- Clearing keeps what is known at all views that are listed and at all sink operands. -/
structure Reportable (g : FlowGraph) : Prop where
  views : ∀ direction field, ∀ n ∈ Search.entries direction g field, g.isKept n
  sinks : ∀ site ∈ g.sinks, site.entrypoint = g.entrypoint ∧ ∀ n ∈ site.arguments, g.isKept n

theorem reportable_of_sound (h : GraphTables.Sound t g) : g.Reportable where
  views direction field n hn := by
    cases direction with
    | backward => exact isKept_of_isField (h.outgoing field n hn).isField
    | forward => exact isKept_of_isField (h.incoming field n hn).isField
  sinks site hsite :=
    ⟨(h.sinks site hsite).entrypoint, fun n hn => isKept_of_special ((h.sinks site hsite).marked n hn)⟩

theorem Reportable.inPhase (h : g.Reportable) (phase : Phase) : (g.inPhase phase).Reportable where
  views direction field n hn := by
    cases direction with
    | backward => exact h.views .backward field n hn
    | forward => exact h.views .forward field n hn
  sinks := h.sinks

theorem Reportable.of_shape (h : g.Reportable) (hshape : SameShape g g') : g'.Reportable where
  views direction field n hn := by
    have hentries : Search.entries direction g' field = Search.entries direction g field := by
      cases direction with
      | backward => simp only [Search.entries, outgoingViews, hshape.outgoing]
      | forward => simp only [Search.entries, incomingViews, hshape.incoming]
    rw [hshape.isKept]
    exact h.views direction field n (hentries ▸ hn)
  sinks site hsite := by
    obtain ⟨hentrypoint, hkept⟩ := h.sinks site (hshape.sinks ▸ hsite)
    exact ⟨hentrypoint.trans hshape.entrypoint.symm, fun n hn => (hshape.isKept n).trans (hkept n hn)⟩

/-- The graph of an entrypoint before it is cleared: it is built, its fields are collected, and facts are propagated. -/
def produce (e : EntrypointId) (t : Setting) (cancelled : Bool) : Except AnalysisError FlowGraph := do
  let outcome := ({ entrypoint := e } : FlowGraph).build t cancelled
  let _ ← outcome.result
  let (fields, g) := outcome.graph.collectFields t.program
  let _ ← fields
  let (_, g) ← g.propagate t.config.maxWorklistIterations
  return g

theorem produce_eq_ok (h : produce e t cancelled = .ok g) :
    ∃ stats fields collected propagation,
      (({ entrypoint := e } : FlowGraph).build t cancelled).result = .ok stats ∧
      (({ entrypoint := e } : FlowGraph).build t cancelled).graph.collectFields t.program = (.ok fields, collected) ∧
      collected.propagate t.config.maxWorklistIterations = .ok (propagation, g) := by
  obtain ⟨stats, hbuild, h⟩ := exists_of_bind_eq_ok h
  rcases hcollect : (({ entrypoint := e } : FlowGraph).build t cancelled).graph.collectFields t.program with ⟨r, c⟩
  rw [hcollect] at h
  obtain ⟨fields, rfl, hrest⟩ := exists_of_bind_eq_ok h
  obtain ⟨⟨propagation, g'⟩, hprop, hg⟩ := exists_of_bind_eq_ok hrest
  cases hg
  exact ⟨stats, fields, c, propagation, hbuild, rfl, hprop⟩

theorem reportable_produce (h : produce e t cancelled = .ok g) :
    g.phase = .propagated ∧ g.entrypoint = e ∧ g.Reportable := by
  obtain ⟨stats, fields, collected, propagation, hbuild, hcollect, hprop⟩ := produce_eq_ok h
  rcases build_cases e t cancelled with ⟨_, _, hsound, hentrypoint, _⟩ | ⟨err, herror, _⟩
  · have hshape := shape_propagate hcollect hprop
    obtain ⟨_, _, rfl⟩ := propagate_eq_ok_iff.mp hprop
    exact ⟨rfl, hshape.entrypoint.trans hentrypoint, ((reportable_of_sound hsound).inPhase _).of_shape hshape⟩
  · rw [hbuild] at herror
    cases herror

end FlowGraph

/-! ## Searches -/

namespace Registry

open FlowGraph

variable {r : Registry} {e : EntrypointId} {n : NodeId} {g : FlowGraph} {direction : Direction}

/-- A registry in which every graph is cleared. -/
def cleared (r : Registry) : Registry := r.mapValues fun _ g => g.cleared

def Reportable (r : Registry) : Prop := ∀ e g, r.get? e = some g → g.Reportable

/-- A node keeps what is known at it when its graph is cleared. -/
def Keeps (r : Registry) (place : EntrypointId × NodeId) : Prop := ∀ g, r.get? place.1 = some g → g.isKept place.2

theorem get?_cleared (r : Registry) (e : EntrypointId) : r.cleared.get? e = (r.get? e).map FlowGraph.cleared :=
  Table.get?_mapValues _ r e

theorem inOrder_cleared (r : Registry) : r.cleared.inOrder = r.inOrder.map fun e => (e.1, e.2.cleared) :=
  sortBy_map (fun _ _ => rfl) r.entries

theorem get?_of_mem_inOrder (h : (e, g) ∈ r.inOrder) : r.get? e = some g :=
  Table.get?_eq_some_iff.mpr (mem_sortBy.mp h)

theorem facts_cleared {place : EntrypointId × NodeId} (h : r.Keeps place) :
    (r.cleared.recordAt place).map NodeRecord.facts = (r.recordAt place).map NodeRecord.facts := by
  rw [recordAt, recordAt, get?_cleared]
  cases hg : r.get? place.1 with
  | none => rfl
  | some g =>
      rw [Option.map_some, Option.bind_some, Option.bind_some, record?_cleared (h g hg), Option.map_map]
      rfl

end Registry

namespace Search

open FlowGraph Registry

variable {r : Registry} {direction : Direction} {more : Bool} {state : SearchState} {s : Search} {levels depth : Nat}
  {door : FieldSignature × Trace} {view : NodeId}

theorem enter_cleared {remote : EntrypointId × FlowGraph} (h : remote.2.isKept view) (s : Search) :
    enter direction more state door (remote.1, remote.2.cleared) s view =
      enter direction more state door remote s view := by
  have hsplice : splice direction remote.2.cleared = splice direction remote.2 := by cases direction <;> rfl
  simp only [enter, record?_cleared h, hsplice]
  cases remote.2.record? view <;> rfl

theorem throughDoor_cleared {graphs : List (EntrypointId × FlowGraph)} (h : ∀ remote ∈ graphs, remote.2.Reportable)
    (s : Search) :
    throughDoor (graphs.map fun e => (e.1, e.2.cleared)) direction more state s door =
      throughDoor graphs direction more state s door := by
  simp only [throughDoor, List.filter_map, List.foldl_map]
  refine List.foldl_ext _ _ s fun s remote hremote => ?_
  have hentries : entries direction remote.2.cleared door.1 = entries direction remote.2 door.1 := by
    cases direction <;> rfl
  rw [hentries]
  refine List.foldl_ext _ _ s fun s view hview => ?_
  exact enter_cleared ((h remote (List.mem_filter.mp hremote).1).views direction door.1 view hview) s

theorem expand_cleared (h : r.Reportable) (hstate : r.Keeps state.place) (s : Search) :
    expand r.cleared direction more s state = expand r direction more s state := by
  have hfacts : ((r.cleared.get? state.entrypoint).bind (·.record? state.node)).map NodeRecord.facts =
      ((r.get? state.entrypoint).bind (·.record? state.node)).map NodeRecord.facts := facts_cleared hstate
  have hdoor : ∀ s door, throughDoor r.cleared.inOrder direction more state s door =
      throughDoor r.inOrder direction more state s door := by
    intro s door
    rw [inOrder_cleared]
    exact throughDoor_cleared (fun remote hremote => h remote.1 remote.2 (get?_of_mem_inOrder hremote)) s
  simp only [expand]
  cases hr : (r.get? state.entrypoint).bind (·.record? state.node) <;>
    cases hr' : (r.cleared.get? state.entrypoint).bind (·.record? state.node) <;> simp [hr, hr'] at hfacts
  · rfl
  · simp only [hfacts]
    exact List.foldl_ext _ _ _ fun s door _ => hdoor s door

/-- A search comes to views only. -/
theorem keeps_level (h : r.Reportable) :
    ∀ state ∈ (level r direction more depth s).next, r.Keeps state.place := by
  refine level_keeps (I := fun s => ∀ state ∈ s.next, r.Keeps state.place) (fun state _ s₁ s₂ hp h₁ => ?_) nofun
  refine hp.next (fun hop _ ht g hg => ?_) h₁
  -- A hop ends at a view that its graph lists.
  obtain ⟨g', _, hg', hview, _⟩ := ht.crosses.view
  cases hg.symm.trans hg'
  exact (h _ _ hg).views direction hop.field hop.view hview

theorem run_cleared (h : r.Reportable) (hs : ∀ state ∈ s.next, r.Keeps state.place) :
    run r.cleared direction levels depth s.next s = run r direction levels depth s.next s := by
  induction levels generalizing depth s with
  | zero => rfl
  | succ levels ih =>
      by_cases hnext : s.next = []
      · simp [run, hnext]
      · have hlevel : level r.cleared direction (0 < levels) depth s = level r direction (0 < levels) depth s :=
          List.foldl_ext _ _ _ fun s₁ state hstate => expand_cleared h (hs state hstate) s₁
        rw [run_succ hnext, run_succ hnext, hlevel]
        exact ih (keeps_level h)

end Search

theorem Registry.search_cleared {r : Registry} {e : EntrypointId} {n : NodeId} (h : r.Reportable)
    (hstart : r.Keeps (e, n)) (maxDepth : Nat) (direction : Direction) (known : Facts) :
    r.cleared.search maxDepth e n direction known = r.search maxDepth e n direction known := by
  have hopening : ∀ state ∈ (Search.opening (e, n) known).next, r.Keeps state.place := by
    intro state hstate
    rw [List.mem_singleton.mp hstate]
    exact hstart
  rw [search_eq, search_eq, Search.outcome, Search.run_cleared h hopening, Search.outcome]

/-! ## Reports -/

namespace Analysis

open FlowGraph

variable {a : Analysis} {g : FlowGraph} {site : SinkSite}

theorem localFacts_cleared {ns : List NodeId} (h : ∀ n ∈ ns, g.isKept n) (known : Facts) :
    localFacts g.cleared ns known = localFacts g ns known := by
  induction ns generalizing known with
  | nil => rfl
  | cons n ns ih =>
      rw [localFacts, localFacts, expectNode_cleared, factsAt_cleared (h n List.mem_cons_self)]
      rw [ih fun m hm => h m (List.mem_cons_of_mem n hm)]

theorem reaching_cleared (h : a.graphs.Reportable) (hg : a.graphs.get? site.entrypoint = some g)
    (hkept : ∀ n ∈ site.arguments, g.isKept n) :
    ({ a with graphs := a.graphs.cleared } : Analysis).reaching site = a.reaching site := by
  have hstart : ∀ n ∈ site.arguments, a.graphs.Keeps (site.entrypoint, n) := by
    intro n hn g' hg'
    cases hg.symm.trans hg'
    exact hkept n hn
  simp only [reaching, Registry.get?_cleared, hg, Option.map_some, localFacts_cleared hkept]
  congr 1
  funext known
  congr 1
  refine List.foldl_ext _ _ known fun known n hn => ?_
  rw [Registry.search_cleared h (hstart n hn), Registry.search_cleared h (hstart n hn)]

theorem sinks_cleared (a : Analysis) : ({ a with graphs := a.graphs.cleared } : Analysis).sinks = a.sinks := by
  simp only [sinks, Registry.inOrder_cleared, List.flatMap_map]
  rfl

/-- Graphs that were produced for their entrypoints can all be cleared, and afterwards the same sinks are listed, and
the same reaches them, however far fields are searched. -/
theorem clearing_keeps_reaching
    (h : ∀ e g, a.graphs.get? e = some g → ∃ t cancelled, FlowGraph.produce e t cancelled = .ok g) :
    let after : Analysis := { a with graphs := a.graphs.cleared }
    (∀ e g, a.graphs.get? e = some g → g.clear = .ok g.cleared) ∧ after.sinks = a.sinks ∧
      ∀ site ∈ a.sinks, ∃ facts, a.reaching site = .ok facts ∧ after.reaching site = .ok facts := by
  intro after
  have hproduced : ∀ e g, a.graphs.get? e = some g → g.phase = .propagated ∧ g.entrypoint = e ∧ g.Reportable := by
    intro e g hg
    obtain ⟨t, cancelled, hproduce⟩ := h e g hg
    exact reportable_produce hproduce
  refine ⟨fun e g hg => clear_eq_cleared (hproduced e g hg).1, sinks_cleared a, fun site hsite => ?_⟩
  obtain ⟨⟨e, g⟩, hmem, hlisted⟩ := List.mem_flatMap.mp hsite
  have hg := Registry.get?_of_mem_inOrder hmem
  obtain ⟨_, rfl, hreportable⟩ := hproduced e g hg
  obtain ⟨hentrypoint, hkept⟩ := hreportable.sinks site hlisted
  have hg : a.graphs.get? site.entrypoint = some g := hentrypoint ▸ hg
  obtain ⟨facts, hfacts, _⟩ := reaching_eq_ok hg fun n hn => GraphTables.node?_isSome_iff.mp (Option.isSome_of_any (hkept n hn))
  refine ⟨facts, hfacts, ?_⟩
  rw [reaching_cleared (fun e g hg => (hproduced e g hg).2.2) hg hkept]
  exact hfacts

/-- The graph of a program that may send values away, before it is cleared. -/
def sendingGraph (e : EntrypointId) (p : Program) : FlowGraph :=
  (FlowGraph.produce e ⟨p, {}, sendRules⟩ false).toOption.getD { entrypoint := e }

/-- A text is stored in a field by one entrypoint and sent away by another, and no graph is cleared. -/
def unclearedAnalysis : Analysis where
  config := {}
  rules := sendRules
  graphs := (Table.empty.insert 1 (sendingGraph 1 sendingProgram)).insert 0 (sendingGraph 0 storingProgram)

theorem unclearedAnalysis_produced (e : EntrypointId) (g : FlowGraph) (hg : unclearedAnalysis.graphs.get? e = some g) :
    ∃ t cancelled, FlowGraph.produce e t cancelled = .ok g := by
  have hproduce : ∀ e p, (FlowGraph.produce e ⟨p, {}, sendRules⟩ false).toOption.isSome →
      FlowGraph.produce e ⟨p, {}, sendRules⟩ false = .ok (sendingGraph e p) := by
    intro e p hok
    obtain ⟨g, hg⟩ := Option.isSome_iff_exists.mp hok
    rw [sendingGraph, hg, Option.getD_some]
    exact eq_ok_of_toOption hg
  simp only [unclearedAnalysis, Table.get?_insert, Table.get?_empty] at hg
  split at hg
  · rename_i he
    subst he
    obtain rfl := Option.some.inj hg
    exact ⟨⟨storingProgram, {}, sendRules⟩, false, hproduce 0 storingProgram (by decide +kernel)⟩
  · split at hg
    · rename_i he
      subst he
      obtain rfl := Option.some.inj hg
      exact ⟨⟨sendingProgram, {}, sendRules⟩, false, hproduce 1 sendingProgram (by decide +kernel)⟩
    · cases hg

theorem unclearedAnalysis_reaching :
    let after : Analysis := { unclearedAnalysis with graphs := unclearedAnalysis.graphs.cleared }
    ∃ site ∈ unclearedAnalysis.sinks, ∃ facts, unclearedAnalysis.reaching site = .ok facts ∧
      after.reaching site = .ok facts ∧ facts.trace? (.text "secret") = some (some [⟨0, 3⟩, ⟨1, 5⟩]) := by
  intro after
  have hlisted : (⟨1, 0, 6, sendMethod, "net", [0]⟩ : SinkSite) ∈ unclearedAnalysis.sinks := by decide +kernel
  have htrace : (unclearedAnalysis.reaching ⟨1, 0, 6, sendMethod, "net", [0]⟩).toOption.map
      (·.trace? (.text "secret")) = some (some (some [⟨0, 3⟩, ⟨1, 5⟩])) := by decide +kernel
  obtain ⟨_, _, hreaching⟩ := clearing_keeps_reaching unclearedAnalysis_produced
  obtain ⟨facts, hbefore, hafter⟩ := hreaching _ hlisted
  rw [hbefore] at htrace
  exact ⟨_, hlisted, facts, hbefore, hafter, Option.some.inj htrace⟩

end Analysis

end SinkFlow
