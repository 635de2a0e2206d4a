import SinkFlow.Proofs.Trace
import SinkFlow.Search

/-!
What a field search may do. Expanding a node leads over hops: through a field that is known there, into a graph that is
not on the way yet, to a view of the field. At such a view the search learns texts and constants, and it may put the
view on the next level, and nothing else happens (`Progress`). What this keeps holds after a whole search
(`run_keeps`).
-/

namespace SinkFlow

/-- The item that lets a search leave a node through a field. -/
def Direction.door : Direction → FieldSignature → Item
  | .backward => .inputField
  | .forward => .outputField

/-- One step of a search, from a node to a view of a field in another graph. -/
structure Hop where
  field : FieldSignature
  /-- The trace with which the field is known at the node that is left. -/
  trace : Trace
  entrypoint : EntrypointId
  view : NodeId
  deriving DecidableEq

def Hop.place (h : Hop) : EntrypointId × NodeId := (h.entrypoint, h.view)

namespace Registry

/-- The record of a node in the graph of an entrypoint. -/
def recordAt (r : Registry) (place : EntrypointId × NodeId) : Option NodeRecord :=
  (r.get? place.1).bind (·.record? place.2)

/-- A hop leads away from a node: its field is known there, and its view has a record and is listed under the field. -/
structure Crosses (r : Registry) (direction : Direction) (place : EntrypointId × NodeId) (h : Hop) : Prop where
  door : ∃ here, r.recordAt place = some here ∧ here.facts.trace? (direction.door h.field) = some h.trace
  view : ∃ g there, r.get? h.entrypoint = some g ∧ h.view ∈ Search.entries direction g h.field ∧
    g.record? h.view = some there

end Registry

namespace SearchState

def place (state : SearchState) : EntrypointId × NodeId := (state.entrypoint, state.node)

/-- A search goes over a hop: it leads away from where the search is, into a graph that is not on the way. -/
structure Takes (r : Registry) (direction : Direction) (state : SearchState) (h : Hop) : Prop where
  crosses : r.Crosses direction state.place h
  new : h.entrypoint ∉ state.visited

/-- Where a search is after a hop. -/
def after (direction : Direction) (state : SearchState) (h : Hop) : SearchState where
  entrypoint := h.entrypoint
  node := h.view
  carried := Search.carry direction h.trace state.carried
  visited := state.visited ++ [h.entrypoint]

end SearchState

namespace Search

variable {r : Registry} {direction : Direction} {more : Bool} {state : SearchState} {s s' s'' : Search}

theorem mem_doors {facts : Facts} {field : FieldSignature} {t : Trace} :
    (field, t) ∈ doors direction facts ↔ facts.trace? (direction.door field) = some t := by
  cases direction with
  | backward => exact Facts.mem_inputFields
  | forward => exact Facts.mem_outputFields

/-! ## Expanding a node -/

theorem found_enqueue (s : Search) (state : SearchState) : (s.enqueue state).found = s.found := by
  unfold enqueue
  split <;> rfl

/-- What may happen while a state is expanded. -/
inductive Progress (r : Registry) (direction : Direction) (more : Bool) (state : SearchState) (s : Search) :
    Search → Prop where
  | start : Progress r direction more state s s
  | count {s' : Search} (hp : Progress r direction more state s s') :
      Progress r direction more state s
        { s' with stats := { s'.stats with remoteViews := s'.stats.remoteViews + 1 } }
  | learn {s' : Search} {h : Hop} {g : FlowGraph} {record : NodeRecord} {i : Item} {t : Trace}
      (hp : Progress r direction more state s s') (ht : state.Takes r direction h)
      (hg : r.get? h.entrypoint = some g) (hr : g.record? h.view = some record) (hi : isContent i)
      (hknown : record.facts.trace? i = some t) :
      Progress r direction more state s
        { s' with found := s'.found.add i (splice direction g h.field t h.trace state.carried) }
  | enqueue {s' : Search} {h : Hop} (hp : Progress r direction more state s s') (ht : state.Takes r direction h)
      (hm : more) : Progress r direction more state s (s'.enqueue (state.after direction h))

namespace Progress

theorem trans (h : Progress r direction more state s s') (h' : Progress r direction more state s' s'') :
    Progress r direction more state s s'' := by
  induction h' with
  | start => exact h
  | count _ ih => exact ih.count
  | learn _ ht hg hr hi hknown ih => exact ih.learn ht hg hr hi hknown
  | enqueue _ ht hm ih => exact ih.enqueue ht hm

theorem foldl {α : Type} {f : Search → α → Search} (as : List α)
    (step : ∀ s, ∀ a ∈ as, Progress r direction more state s (f s a)) (s : Search) :
    Progress r direction more state s (as.foldl f s) :=
  List.foldlRecOn (motive := Progress r direction more state s) as f .start
    fun s' hs a ha => hs.trans (step s' a ha)

theorem collect {h : Hop} {g : FlowGraph} {record : NodeRecord} (ht : state.Takes r direction h)
    (hg : r.get? h.entrypoint = some g) (hr : g.record? h.view = some record) :
    Progress r direction more state s
      (s.collect record.facts fun t => splice direction g h.field t h.trace state.carried) := by
  have hcontent : ∀ es ⊆ record.facts.items.entries.filter fun e => isContent e.1, ∀ s : Search,
      Progress r direction more state s
        { s with
          found := es.foldl (fun acc e => acc.add e.1 (splice direction g h.field e.2 h.trace state.carried))
            s.found } := by
    intro es
    induction es with
    | nil => exact fun _ s => .start
    | cons e es ih =>
        intro hes s
        obtain ⟨hmem, hi⟩ := List.mem_filter.mp (hes List.mem_cons_self)
        refine trans (start.learn ht hg hr hi (Facts.mem_entries_iff.mp hmem)) ?_
        exact ih (fun a ha => hes (List.mem_cons_of_mem e ha)) _
  exact hcontent _ (List.Subset.refl _) s

theorem enter {h : Hop} {g : FlowGraph} (hdoor : ∃ here, r.recordAt state.place = some here ∧
      here.facts.trace? (direction.door h.field) = some h.trace) (hg : r.get? h.entrypoint = some g)
    (hview : h.view ∈ entries direction g h.field) (hnew : h.entrypoint ∉ state.visited) :
    Progress r direction more state s
      (Search.enter direction more state (h.field, h.trace) (h.entrypoint, g) s h.view) := by
  unfold Search.enter
  cases hr : g.record? h.view with
  | none => exact .start
  | some record =>
      have ht : state.Takes r direction h := ⟨⟨hdoor, g, record, hg, hview, hr⟩, hnew⟩
      dsimp only
      split
      · rename_i hm
        exact (trans start.count (collect ht hg hr)).enqueue ht hm
      · exact trans start.count (collect ht hg hr)

theorem throughDoor {door : FieldSignature × Trace} (hdoor : ∃ here, r.recordAt state.place = some here ∧
      here.facts.trace? (direction.door door.1) = some door.2) :
    Progress r direction more state s (Search.throughDoor r.inOrder direction more state s door) := by
  refine foldl _ (fun s remote hremote => ?_) s
  obtain ⟨hmem, hnew⟩ := List.mem_filter.mp hremote
  have hg : r.get? remote.1 = some remote.2 := Table.get?_eq_some_iff.mpr (mem_sortBy.mp hmem)
  refine foldl _ (fun s view hview => ?_) s
  exact enter (h := ⟨door.1, door.2, remote.1, view⟩) hdoor hg hview (by simpa using hnew)

/-- Expanding a state counts it and makes progress from it. -/
theorem expand (r : Registry) (direction : Direction) (more : Bool) (s : Search) (state : SearchState) :
    Progress r direction more state { s with stats := { s.stats with states := s.stats.states + 1 } }
      (Search.expand r direction more s state) := by
  simp only [Search.expand]
  split
  · exact .start
  · rename_i here hhere
    exact foldl _ (fun s door hdoor => throughDoor ⟨here, hhere, mem_doors.mp hdoor⟩) _

/-! ## What expanding keeps -/

theorem found {K : Facts → Prop}
    (learn : ∀ h g record i t f, state.Takes r direction h → r.get? h.entrypoint = some g →
      g.record? h.view = some record → isContent i → record.facts.trace? i = some t → K f →
        K (f.add i (splice direction g h.field t h.trace state.carried)))
    (hp : Progress r direction more state s s') (hK : K s.found) : K s'.found := by
  induction hp with
  | start => exact hK
  | count _ ih => exact ih
  | learn _ ht hg hr hi hknown ih => exact learn _ _ _ _ _ _ ht hg hr hi hknown ih
  | enqueue _ _ _ ih =>
      unfold Search.enqueue
      split
      · exact ih
      · exact ih

theorem next {N : SearchState → Prop} (after : ∀ h, more → state.Takes r direction h → N (state.after direction h))
    (hp : Progress r direction more state s s') (hN : ∀ st ∈ s.next, N st) : ∀ st ∈ s'.next, N st := by
  induction hp with
  | start => exact hN
  | count _ ih => exact ih
  | learn _ _ _ _ _ _ ih => exact ih
  | enqueue _ ht hm ih =>
      unfold Search.enqueue
      split
      · exact ih
      · intro st hst
        rcases List.mem_append.mp hst with hst | hst
        · exact ih st hst
        · rw [List.mem_singleton.mp hst]
          exact after _ hm ht

end Progress

/-! ## Whole searches -/

/-- Expands all states of a level; the next level comes into `next`. -/
def level (r : Registry) (direction : Direction) (more : Bool) (depth : Nat) (s : Search) : Search :=
  s.next.foldl (expand r direction more) { s with next := [], stats := { s.stats with deepest := depth } }

/-- The states that a search expands, in their order. -/
def expansions (r : Registry) (direction : Direction) : Nat → Nat → Search → List SearchState
  | 0, _, _ => []
  | levels + 1, depth, s =>
    match s.next with
    | [] => []
    | states => states ++ expansions r direction levels (depth + 1) (level r direction (0 < levels) depth s)

theorem run_succ {levels depth : Nat} (hs : s.next ≠ []) :
    run r direction (levels + 1) depth s.next s =
      run r direction levels (depth + 1) (level r direction (0 < levels) depth s).next
        (level r direction (0 < levels) depth s) := by
  unfold level
  cases hn : s.next with
  | nil => exact absurd hn hs
  | cons state rest => rfl

theorem expansions_succ {levels depth : Nat} (hs : s.next ≠ []) :
    expansions r direction (levels + 1) depth s =
      s.next ++ expansions r direction levels (depth + 1) (level r direction (0 < levels) depth s) := by
  cases hn : s.next with
  | nil => exact absurd hn hs
  | cons state rest => simp [expansions, hn]

/-- A search before its first level: only the node that it starts from waits. -/
def opening (start : EntrypointId × NodeId) (known : Facts) : Search where
  found := known
  expanded := [start]
  next := [{ entrypoint := start.1, node := start.2, carried := some [], visited := [start.1] }]

/-- A search after its last level. -/
def outcome (r : Registry) (direction : Direction) (limit : Nat) (start : EntrypointId × NodeId) (known : Facts) :
    Search := run r direction limit 0 (opening start known).next (opening start known)

/-- What expanding a state keeps holds after a level. -/
theorem level_keeps {I : Search → Prop} {depth : Nat}
    (expand : ∀ state ∈ s.next, ∀ s₁ s₂, Progress r direction more state
      { s₁ with stats := { s₁.stats with states := s₁.stats.states + 1 } } s₂ → I s₁ → I s₂)
    (h : I { s with next := [], stats := { s.stats with deepest := depth } }) : I (level r direction more depth s) :=
  List.foldlRecOn _ _ h fun s₁ hs₁ state hstate => expand state hstate s₁ _ (.expand r direction more s₁ state) hs₁

/-- What every level keeps holds after a search through at most `limit` levels. It may speak of how many levels there
were and of the states that were expanded. If the search ends before the limit, nothing is left for another level. -/
theorem run_keeps {P : Nat → List SearchState → Search → Prop} {limit : Nat}
    (step : ∀ depth log s, depth < limit → s.next ≠ [] → P depth log s →
      P (depth + 1) (log ++ s.next) (level r direction (depth + 1 < limit) depth s))
    (levels depth : Nat) (log : List SearchState) (s : Search) (hd : depth + levels = limit) (h : P depth log s) :
    ∃ depth' ≤ limit,
      P depth' (log ++ expansions r direction levels depth s) (run r direction levels depth s.next s) ∧
        (depth' < limit → (run r direction levels depth s.next s).next = []) := by
  induction levels generalizing depth log s with
  | zero =>
      refine ⟨depth, by omega, ?_, by omega⟩
      simpa [expansions, run] using h
  | succ levels ih =>
      by_cases hs : s.next = []
      · refine ⟨depth, by omega, ?_, fun _ => ?_⟩
        · simpa [expansions, run, hs] using h
        · simp [run, hs]
      · have hmore : decide (0 < levels) = decide (depth + 1 < limit) := by
          rw [decide_eq_decide]
          omega
        rw [run_succ hs, expansions_succ hs, hmore, ← List.append_assoc]
        exact ih (depth + 1) _ _ (by omega) (step depth log s (by omega) hs h)

end Search

theorem Registry.search_eq (r : Registry) (maxDepth : Nat) (e : EntrypointId) (n : NodeId) (direction : Direction)
    (known : Facts) :
    r.search maxDepth e n direction known =
      ((Search.outcome r direction (max 1 maxDepth) (e, n) known).found,
        (Search.outcome r direction (max 1 maxDepth) (e, n) known).stats) := by
  obtain ⟨levels, hlevels⟩ : ∃ levels, max 1 maxDepth = levels + 1 := ⟨max 1 maxDepth - 1, by omega⟩
  rw [Registry.search, hlevels]
  rfl

end SinkFlow
