import SinkFlow.Proofs.Search.Route

/-!
What a search finds, in its order, and what a deeper one adds to it. Every state that is expanded brings what is known
at the ends of its hops (`brought`), and what a search finds is what was known before and then what its states bring,
the first one giving the trace (`found_run`). Which states these are does not depend on what was known
(`SameViews.expansions`). A deeper search expands the same states first (`expansions_prefix`), so whatever it adds comes
too late to change what is there.
-/

namespace SinkFlow

/-- The end of a hop: the graph that it leads into, and the record of its view there. -/
structure Arrival where
  hop : Hop
  graph : FlowGraph
  record : NodeRecord

namespace Search

variable {r : Registry} {direction : Direction} {more : Bool} {state : SearchState} {s s' : Search}

/-! ## Expanding a state -/

/-- Where a search comes through one field, in the order in which it does. -/
def arrivalsThrough (r : Registry) (direction : Direction) (state : SearchState) (door : FieldSignature × Trace) :
    List Arrival :=
  (r.inOrder.filter fun remote => remote.1 ∉ state.visited).flatMap fun remote =>
    (entries direction remote.2 door.1).filterMap fun view =>
      (remote.2.record? view).map fun record => ⟨⟨door.1, door.2, remote.1, view⟩, remote.2, record⟩

/-- Where the hops from a state lead, in the order in which a search goes over them. -/
def arrivals (r : Registry) (direction : Direction) (state : SearchState) : List Arrival :=
  match r.recordAt state.place with
  | none => []
  | some here => (doors direction here.facts).flatMap (arrivalsThrough r direction state)

/-- What is known at the end of a hop, with the traces on from there. -/
def contents (direction : Direction) (state : SearchState) (a : Arrival) : List (Item × Trace) :=
  (a.record.facts.items.entries.filter fun e => isContent e.1).map fun e =>
    (e.1, splice direction a.graph a.hop.field e.2 a.hop.trace state.carried)

/-- All that expanding a state brings. -/
def brought (r : Registry) (direction : Direction) (state : SearchState) : List (Item × Trace) :=
  (arrivals r direction state).flatMap (contents direction state)

/-- What a search does at the end of a hop. -/
def arrive (direction : Direction) (more : Bool) (state : SearchState) (s : Search) (a : Arrival) : Search :=
  let s := { s with stats := { s.stats with remoteViews := s.stats.remoteViews + 1 } }
  let s := s.collect a.record.facts fun t => splice direction a.graph a.hop.field t a.hop.trace state.carried
  if more then s.enqueue (state.after direction a.hop) else s

theorem throughDoor_eq (s : Search) (door : FieldSignature × Trace) :
    throughDoor r.inOrder direction more state s door =
      (arrivalsThrough r direction state door).foldl (arrive direction more state) s := by
  rw [throughDoor, arrivalsThrough, List.foldl_flatMap]
  congr 1
  funext s remote
  rw [List.foldl_filterMap]
  congr 1
  funext s view
  unfold enter
  cases remote.2.record? view <;> rfl

/-- Expanding a state goes from one arrival to the next. -/
theorem expand_eq (r : Registry) (direction : Direction) (more : Bool) (s : Search) (state : SearchState) :
    expand r direction more s state =
      (arrivals r direction state).foldl (arrive direction more state)
        { s with stats := { s.stats with states := s.stats.states + 1 } } := by
  have hplace : (r.get? state.entrypoint).bind (·.record? state.node) = r.recordAt state.place := rfl
  rw [expand, arrivals, hplace]
  cases r.recordAt state.place with
  | none => rfl
  | some here =>
      have hthrough : throughDoor r.inOrder direction more state =
          fun s door => (arrivalsThrough r direction state door).foldl (arrive direction more state) s := by
        funext s door
        exact throughDoor_eq s door
      rw [List.foldl_flatMap, ← hthrough]

theorem found_arrive (s : Search) (a : Arrival) :
    (arrive direction more state s a).found = s.found.addAll (contents direction state a) := by
  have hcollect : s.found.addAll (contents direction state a) = (s.collect a.record.facts fun t =>
      splice direction a.graph a.hop.field t a.hop.trace state.carried).found := by
    rw [collect, Facts.addAll, contents, List.foldl_map]
  rw [hcollect]
  simp only [arrive]
  split
  · exact found_enqueue _ _
  · rfl

theorem found_expand (r : Registry) (direction : Direction) (more : Bool) (s : Search) (state : SearchState) :
    (expand r direction more s state).found = s.found.addAll (brought r direction state) := by
  rw [expand_eq, brought, Facts.addAll, List.foldl_flatMap]
  exact (List.foldl_hom Search.found fun s a => (found_arrive s a).symm).symm

theorem found_level (r : Registry) (direction : Direction) (more : Bool) (depth : Nat) (s : Search) :
    (level r direction more depth s).found = s.found.addAll (s.next.flatMap (brought r direction)) := by
  rw [level, Facts.addAll, List.foldl_flatMap]
  exact (List.foldl_hom Search.found fun s state => (found_expand r direction more s state).symm).symm

/-! ## Searches with the same views -/

/-- Two searches have put the same views on a level, and have the same level before them. -/
structure SameViews (s s' : Search) : Prop where
  expanded : s.expanded = s'.expanded
  next : s.next = s'.next

namespace SameViews

theorem enqueue (h : SameViews s s') (state : SearchState) : SameViews (s.enqueue state) (s'.enqueue state) := by
  unfold Search.enqueue
  rw [h.expanded]
  split
  · exact h
  · exact ⟨rfl, congrArg (· ++ [state]) h.next⟩

theorem arrive (h : SameViews s s') (a : Arrival) :
    SameViews (arrive direction more state s a) (arrive direction more state s' a) := by
  cases more with
  | false => exact ⟨h.expanded, h.next⟩
  | true =>
      simp only [Search.arrive, if_true]
      refine enqueue ?_ _
      exact ⟨h.expanded, h.next⟩

theorem expand (h : SameViews s s') (state : SearchState) :
    SameViews (expand r direction more s state) (expand r direction more s' state) := by
  rw [expand_eq, expand_eq]
  exact List.foldl_rel ⟨h.expanded, h.next⟩ fun a _ _ _ h => h.arrive a

theorem level (h : SameViews s s') (depth : Nat) :
    SameViews (level r direction more depth s) (level r direction more depth s') := by
  rw [Search.level, Search.level, h.next]
  exact List.foldl_rel ⟨h.expanded, rfl⟩ fun state _ _ _ h => h.expand state

/-- Such searches go on alike, whatever they have found. -/
theorem expansions (h : SameViews s s') (levels depth : Nat) :
    expansions r direction levels depth s = expansions r direction levels depth s' := by
  induction levels generalizing depth s s' with
  | zero => rfl
  | succ levels ih =>
      by_cases hs : s.next = []
      · simp [Search.expansions, hs, ← h.next]
      · rw [expansions_succ hs, expansions_succ (h.next ▸ hs), ih (h.level depth), h.next]

end SameViews

/-! ## Whole searches -/

/-- What a search finds is what was known before and what the states that it expands bring, one after another. -/
theorem found_run (r : Registry) (direction : Direction) (levels depth : Nat) (s : Search) :
    (run r direction levels depth s.next s).found =
      s.found.addAll ((expansions r direction levels depth s).flatMap (brought r direction)) := by
  induction levels generalizing depth s with
  | zero => rfl
  | succ levels ih =>
      by_cases hs : s.next = []
      · rw [hs]
        simp [run, expansions, hs, Facts.addAll]
      · rw [run_succ hs, expansions_succ hs, ih, found_level, List.flatMap_append, Facts.addAll_append]

/-- A deeper search expands the same states first. -/
theorem expansions_prefix (r : Registry) (direction : Direction) {levels levels' : Nat} (h : levels ≤ levels')
    (depth : Nat) (s : Search) : expansions r direction levels depth s <+: expansions r direction levels' depth s := by
  induction levels generalizing levels' depth s with
  | zero => exact List.nil_prefix
  | succ levels ih =>
      obtain ⟨levels', rfl⟩ : ∃ more, levels' = more + 1 := ⟨levels' - 1, by omega⟩
      by_cases hs : s.next = []
      · simp [expansions, hs]
      · rw [expansions_succ hs, expansions_succ hs, List.prefix_append_right_inj]
        -- The two searches differ in a level only if the first one ends with it.
        cases levels with
        | zero => exact List.nil_prefix
        | succ levels =>
            have hmore : decide (0 < levels') = decide (0 < levels + 1) := decide_eq_decide.mpr (by omega)
            rw [hmore]
            exact ih (by omega) _ _

end Search

namespace Registry

open Search

/-- All that a search from a node brings, in its order. -/
def yields (r : Registry) (d : Nat) (direction : Direction) (start : EntrypointId × NodeId) : List (Item × Trace) :=
  (expansions r direction (max 1 d) 0 (opening start .empty)).flatMap (brought r direction)

/-- What a search finds is what was known before and what it brings, which does not depend on that. -/
theorem found_search (r : Registry) (d : Nat) (e : EntrypointId) (n : NodeId) (direction : Direction) (known : Facts) :
    (r.search d e n direction known).1 = known.addAll (r.yields d direction (e, n)) := by
  have hsame : SameViews (opening (e, n) known) (opening (e, n) .empty) := ⟨rfl, rfl⟩
  rw [search_eq, outcome, found_run, hsame.expansions]
  rfl

theorem yields_prefix (r : Registry) {d d' : Nat} (hd : d ≤ d') (direction : Direction)
    (start : EntrypointId × NodeId) : r.yields d direction start <+: r.yields d' direction start := by
  have hlevels : max 1 d ≤ max 1 d' := by omega
  obtain ⟨rest, hrest⟩ := expansions_prefix r direction hlevels 0 (opening start .empty)
  rw [yields, yields, ← hrest, List.flatMap_append]
  exact List.prefix_append _ _

/-- A search finds what was known before and what it finds when nothing was known. -/
theorem trace?_search (r : Registry) (d : Nat) (e : EntrypointId) (n : NodeId) (direction : Direction) (known : Facts)
    (i : Item) :
    (r.search d e n direction known).1.trace? i =
      (known.trace? i).or ((r.search d e n direction .empty).1.trace? i) := by
  simp only [found_search, Facts.trace?_addAll, Facts.trace?_empty, Option.none_or]

theorem has_search (r : Registry) (d : Nat) (e : EntrypointId) (n : NodeId) (direction : Direction) (known : Facts)
    (i : Item) :
    (r.search d e n direction known).1.has i = (known.has i || (r.search d e n direction .empty).1.has i) := by
  rw [Facts.has_eq_isSome, trace?_search, Option.isSome_or, Facts.has_eq_isSome, Facts.has_eq_isSome]

theorem trace?_search_mono (r : Registry) {d d' : Nat} (hd : d ≤ d') (e : EntrypointId) (n : NodeId)
    (direction : Direction) {i : Item} {t : Trace} (ht : (r.search d e n direction .empty).1.trace? i = some t) :
    (r.search d' e n direction .empty).1.trace? i = some t := by
  rw [found_search] at ht ⊢
  obtain ⟨rest, hrest⟩ := r.yields_prefix hd direction (e, n)
  rw [← hrest, Facts.addAll_append, Facts.trace?_addAll, ht, Option.some_or]

/-- Raising the depth of a search loses nothing: what was found is found again, every text with the same path. The
searches of a report hand on what they have found, see `Analysis.reaching_deeper` for what that does to a report. -/
theorem search_deeper (r : Registry) {d d' : Nat} (hd : d ≤ d') (e : EntrypointId) (n : NodeId) (direction : Direction)
    (known : Facts) :
    let shallow := (r.search d e n direction known).1
    let deep := (r.search d' e n direction known).1
    shallow.texts ⊆ deep.texts ∧ shallow.constants ⊆ deep.constants ∧
      ∀ i t, shallow.trace? i = some t → deep.trace? i = some t := by
  intro shallow deep
  have hkept : ∀ i t, shallow.trace? i = some t → deep.trace? i = some t := by
    intro i t ht
    simp only [shallow, deep] at ht ⊢
    rw [trace?_search, Option.or_eq_some_iff] at ht ⊢
    exact ht.imp_right fun ⟨hnew, ht⟩ => ⟨hnew, r.trace?_search_mono hd e n direction ht⟩
  refine ⟨?_, fun c hc => ?_, hkept⟩
  · rintro ⟨text, t⟩ ht
    exact Facts.mem_texts.mpr (hkept _ t (Facts.mem_texts.mp ht))
  · obtain ⟨t, ht⟩ := Facts.trace?_of_has (Facts.mem_constants.mp hc)
    exact Facts.mem_constants.mpr (Facts.has_of_trace? (hkept _ t ht))

/-- A value that was read from a field, which another entrypoint writes with a text and with what it read from a second
field. A third one writes that with the same text and with another one. -/
def steppedRegistry : Registry :=
  let account : FieldSignature := ⟨"app.Store", "account"⟩
  let token : FieldSignature := ⟨"app.Store", "token"⟩
  let one (t : Trace) : Facts := Facts.empty.add (.text "one") t
  Table.ofEntries
    [(0, writingGraph 0 [(⟨"app.View", "shown"⟩, Facts.empty.add (.inputField account) (some [⟨0, 9⟩]))]),
      (1, writingGraph 1 [(account, (one (some [⟨1, 4⟩])).add (.inputField token) (some []))]),
      (2, writingGraph 2 [(token, (one (some [⟨2, 1⟩])).add (.text "two") (some [⟨2, 2⟩]))])]

theorem steppedRegistry_deeper :
    1 ≤ 2 ∧ (steppedRegistry.search 1 0 0 .backward .empty).1.has (.text "two") = false ∧
      (steppedRegistry.search 2 0 0 .backward .empty).1.has (.text "two") ∧
      (steppedRegistry.search 2 0 0 .backward .empty).1.trace? (.text "one") = some (some [⟨1, 4⟩, ⟨0, 9⟩]) := by
  have hshallow : (steppedRegistry.search 1 0 0 .backward .empty).1.trace? (.text "one") =
      some (some [⟨1, 4⟩, ⟨0, 9⟩]) := by decide +kernel
  obtain ⟨_, _, hkept⟩ := search_deeper steppedRegistry (show 1 ≤ 2 by decide) 0 0 .backward .empty
  exact ⟨by decide, by decide +kernel, by decide +kernel, hkept _ _ hshallow⟩

end Registry

end SinkFlow
