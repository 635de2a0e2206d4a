import SinkFlow.Proofs.Flow.Operation
import SinkFlow.Proofs.Search.Expansion

/-!
Where a field search finds things. Everything that it adds is known at the end of a route, which is a chain of hops over
different entrypoints that is no longer than the search is deep, and its trace is put together from the traces along
the route. A search takes no view up twice, and stops because nothing is left to take up.
-/

namespace SinkFlow

/-! ## Traces along a route -/

namespace Trace

variable {a b c : Trace}

@[simp] theorem join_nil_left (t : Trace) : join (some []) t = t := by
  cases t <;> rfl

@[simp] theorem join_nil_right (t : Trace) : join t (some []) = t := by
  cases t <;> simp [join]

theorem join_assoc (a b c : Trace) : join (join a b) c = join a (join b c) := by
  cases a <;> cases b <;> cases c <;> simp [join]

/-- Some traces one after another; a dropped one drops the whole. -/
def joinAll (ts : List Trace) : Trace := ts.foldr join (some [])

@[simp] theorem joinAll_nil : joinAll [] = some [] := rfl

@[simp] theorem joinAll_cons (t : Trace) (ts : List Trace) : joinAll (t :: ts) = join t (joinAll ts) := rfl

theorem joinAll_append (ts us : List Trace) : joinAll (ts ++ us) = join (joinAll ts) (joinAll us) := by
  induction ts with
  | nil => exact (join_nil_left _).symm
  | cons t ts ih => rw [List.cons_append, joinAll_cons, ih, joinAll_cons, join_assoc]

end Trace

theorem exists_of_findIdx? {α : Type} {p : α → Bool} {as : List α} {i : Nat} (h : as.findIdx? p = some i) :
    ∃ before a after, as = before ++ a :: after ∧ before.length = i ∧ p a ∧ ∀ b ∈ before, p b = false := by
  obtain ⟨hi, ha, hbefore⟩ := List.findIdx?_eq_some_iff_getElem.mp h
  refine ⟨as.take i, as[i], as.drop (i + 1), ?_, by simp; omega, ha, fun b hb => ?_⟩
  · rw [← List.drop_eq_getElem_cons hi, List.take_append_drop]
  · obtain ⟨j, hj, rfl⟩ := List.mem_take_iff_getElem.mp hb
    simpa using hbefore j (by omega)

namespace FlowGraph

variable (g : FlowGraph) (field : FieldSignature)

/-- A path is cut right after its last write of a field; one that does not write it is left whole. -/
def EndsAtPut (path cut : Path) : Prop :=
  (∃ before put after, path = before ++ put :: after ∧ g.isAccess field .put put ∧
    (∀ step ∈ after, g.isAccess field .put step = false) ∧ cut = before ++ [put]) ∨
  (∀ step ∈ path, g.isAccess field .put step = false) ∧ cut = path

/-- A path is cut right before its first read of a field; one that does not read it is left whole. -/
def StartsAtGet (path cut : Path) : Prop :=
  (∃ before get after, path = before ++ get :: after ∧ g.isAccess field .get get ∧
    (∀ step ∈ before, g.isAccess field .get step = false) ∧ cut = get :: after) ∨
  (∀ step ∈ path, g.isAccess field .get step = false) ∧ cut = path

theorem endsAtPut_upToPut (path : Path) : g.EndsAtPut field path (g.upToPut field path) := by
  simp only [upToPut, connecting?]
  cases hi : path.reverse.findIdx? (g.isAccess field .put) with
  | none => exact .inr ⟨by simpa using hi, rfl⟩
  | some i =>
      obtain ⟨after, put, before, hpath, rfl, hput, hafter⟩ := exists_of_findIdx? hi
      -- The last write of a path is the first one of its reverse.
      have hpath : path = before.reverse ++ [put] ++ after.reverse := by
        rw [← List.reverse_reverse path, hpath]
        simp
      have hlength : (before.reverse ++ [put]).length = path.length - 1 - after.length + 1 := by simp [hpath]
      refine .inl ⟨before.reverse, put, after.reverse, by simp [hpath], hput, by simpa using hafter, ?_⟩
      simp only [Option.map_some, ← hlength]
      rw [hpath, List.take_left]

theorem startsAtGet_fromGet (path : Path) : g.StartsAtGet field path (g.fromGet field path) := by
  simp only [fromGet, connecting?]
  cases hi : path.findIdx? (g.isAccess field .get) with
  | none => exact .inr ⟨by simpa using hi, rfl⟩
  | some i =>
      obtain ⟨before, get, after, rfl, rfl, hget, hbefore⟩ := exists_of_findIdx? hi
      exact .inl ⟨before, get, after, rfl, hget, hbefore, by simp⟩

end FlowGraph

/-- How a search cuts the path of what it finds behind a field: backward it wants to know how the field was written,
forward what is done with it once it was read. -/
def Direction.Cuts (direction : Direction) (g : FlowGraph) (field : FieldSignature) : Path → Path → Prop :=
  match direction with
  | .backward => g.EndsAtPut field
  | .forward => g.StartsAtGet field

/-! ## Routes -/

namespace Registry

/-- A route of a search: hops from a node to another one, each into a graph that is not on the route yet. -/
inductive Route (r : Registry) (direction : Direction) (start : EntrypointId × NodeId) :
    List Hop → EntrypointId × NodeId → Prop where
  | start : Route r direction start [] start
  | hop {hops : List Hop} {stop : EntrypointId × NodeId} {h : Hop} (route : Route r direction start hops stop)
      (crosses : r.Crosses direction stop h) (new : h.entrypoint ∉ start.1 :: hops.map Hop.entrypoint) :
      Route r direction start (hops ++ [h]) h.place

/-- The traces along a route: backward the last hop comes first, forward it comes last. -/
def along (direction : Direction) (hops : List Hop) : Trace :=
  match direction with
  | .backward => Trace.joinAll (hops.map Hop.trace).reverse
  | .forward => Trace.joinAll (hops.map Hop.trace)

/-- The trace of what is found at the end of a route: backward it leads from there to the start, forward from the start
to there. -/
def spliced (direction : Direction) (hops : List Hop) (remote : Trace) : Trace :=
  match direction with
  | .backward => Trace.joinAll (remote :: (hops.map Hop.trace).reverse)
  | .forward => Trace.joinAll (hops.map Hop.trace ++ [remote])

/-- An item is known at the end of a route with at most `limit` hops, and at the start with the trace that is cut
there and goes on along the route. -/
def Yields (r : Registry) (direction : Direction) (start : EntrypointId × NodeId) (limit : Nat) (i : Item)
    (t : Trace) : Prop :=
  ∃ hops h g record remote cut, r.Route direction start (hops ++ [h]) h.place ∧ (hops ++ [h]).length ≤ limit ∧
    r.get? h.entrypoint = some g ∧ g.record? h.view = some record ∧ record.facts.trace? i = some remote ∧
    Option.Rel (direction.Cuts g h.field) remote cut ∧ t = spliced direction (hops ++ [h]) cut

end Registry

namespace Search

open Registry

variable {r : Registry} {direction : Direction} {more : Bool} {state : SearchState} {s s' : Search}
  {start : EntrypointId × NodeId} {known : Facts} {hops : List Hop} {h : Hop} {limit depth : Nat}
  {log : List SearchState}

/-- What was carried along a route is carried on over one more hop. -/
theorem carry_along (hops : List Hop) (h : Hop) :
    carry direction h.trace (along direction hops) = along direction (hops ++ [h]) := by
  cases direction with
  | backward => simp [carry, along]
  | forward => simp [carry, along, Trace.joinAll_append]

theorem exists_splice (direction : Direction) (g : FlowGraph) (hops : List Hop) (h : Hop) (remote : Trace) :
    ∃ cut, Option.Rel (direction.Cuts g h.field) remote cut ∧
      splice direction g h.field remote h.trace (along direction hops) = spliced direction (hops ++ [h]) cut := by
  cases direction with
  | backward =>
      refine ⟨remote.map (g.upToPut h.field), ?_, ?_⟩
      · cases remote with
        | none => exact .none
        | some path => exact .some (g.endsAtPut_upToPut h.field path)
      · simp [splice, FlowGraph.spliceBackward, along, spliced, Trace.join_assoc]
  | forward =>
      refine ⟨remote.map (g.fromGet h.field), ?_, ?_⟩
      · cases remote with
        | none => exact .none
        | some path => exact .some (g.startsAtGet_fromGet h.field path)
      · simp [splice, FlowGraph.spliceForward, along, spliced, Trace.joinAll_append, Trace.join_assoc]

/-! ## What is found -/

/-- A search came to a state over a route: it carries the traces along it and remembers its entrypoints. -/
structure Arrived (r : Registry) (direction : Direction) (start : EntrypointId × NodeId) (hops : List Hop)
    (state : SearchState) : Prop where
  route : r.Route direction start hops state.place
  visited : state.visited = start.1 :: hops.map Hop.entrypoint
  carried : state.carried = along direction hops

theorem Arrived.after (ha : Arrived r direction start hops state) (ht : state.Takes r direction h) :
    Arrived r direction start (hops ++ [h]) (state.after direction h) where
  route := ha.route.hop ht.crosses (ha.visited ▸ ht.new)
  visited := by simp [SearchState.after, ha.visited]
  carried := by rw [SearchState.after, ha.carried, carry_along]

/-- What was known keeps its trace, and all else that was found is known at the end of a route. The states of the next
level are `depth` hops away from the start. -/
structure Sound (r : Registry) (direction : Direction) (start : EntrypointId × NodeId) (known : Facts) (limit : Nat)
    (depth : Nat) (s : Search) : Prop where
  kept : ∀ i t, known.trace? i = some t → s.found.trace? i = some t
  found : ∀ i t, s.found.trace? i = some t →
    known.trace? i = some t ∨ isContent i ∧ r.Yields direction start limit i t
  next : ∀ state ∈ s.next, ∃ hops, Arrived r direction start hops state ∧ hops.length = depth

theorem Progress.sound (ha : Arrived r direction start hops state) (hl : hops.length < limit)
    (hp : Progress r direction more state s s') (hs : Sound r direction start known limit (hops.length + 1) s) :
    Sound r direction start known limit (hops.length + 1) s' where
  kept := by
    refine hp.found (K := fun f => ∀ i t, known.trace? i = some t → f.trace? i = some t) ?_ hs.kept
    intro h g record i t f _ _ _ _ _ hf j u hj
    rw [Facts.trace?_add, hf j u hj, Option.some_or]
  found := by
    refine hp.found (K := fun f => ∀ i t, f.trace? i = some t →
      known.trace? i = some t ∨ isContent i ∧ r.Yields direction start limit i t) ?_ hs.found
    intro h g record i t f ht hg hr hi hknown hf j u hj
    rw [Facts.trace?_add] at hj
    rcases Option.or_eq_some_iff.mp hj with hj | ⟨_, hj⟩
    · exact hf j u hj
    · split at hj
      · rename_i he
        cases hj
        subst he
        obtain ⟨cut, hcut, hsplice⟩ := exists_splice direction g hops h t
        refine .inr ⟨hi, hops, h, g, record, t, cut, (ha.after ht).route, ?_, hg, hr, hknown, hcut, ?_⟩
        · rw [List.length_append]
          exact hl
        · rw [ha.carried, hsplice]
      · cases hj
  next := hp.next (fun h _ ht => ⟨hops ++ [h], ha.after ht, by simp⟩) hs.next

theorem Sound.level (hs : Sound r direction start known limit depth s) (hd : depth < limit) :
    Sound r direction start known limit (depth + 1) (Search.level r direction more depth s) := by
  refine level_keeps (I := Sound r direction start known limit (depth + 1)) ?_ ⟨hs.kept, hs.found, nofun⟩
  intro state hstate s₁ s₂ hp h₁
  obtain ⟨hops, ha, rfl⟩ := hs.next state hstate
  exact hp.sound ha hd ⟨h₁.kept, h₁.found, h₁.next⟩

/-! ## What is taken up -/

theorem Progress.stats (hp : Progress r direction more state s s') :
    s'.stats.states = s.stats.states ∧ s'.stats.deepest = s.stats.deepest := by
  induction hp with
  | start => exact ⟨rfl, rfl⟩
  | count _ ih => exact ih
  | learn _ _ _ _ _ _ ih => exact ih
  | enqueue _ _ _ ih =>
      unfold Search.enqueue
      split
      · exact ih
      · exact ih

theorem stats_foldl_expand (r : Registry) (direction : Direction) (more : Bool) (states : List SearchState)
    (s : Search) :
    (states.foldl (expand r direction more) s).stats.states = s.stats.states + states.length ∧
      (states.foldl (expand r direction more) s).stats.deepest = s.stats.deepest := by
  induction states generalizing s with
  | nil => exact ⟨rfl, rfl⟩
  | cons state states ih =>
      obtain ⟨hstates, hdeepest⟩ := (Progress.expand r direction more s state).stats
      obtain ⟨ihstates, ihdeepest⟩ := ih (expand r direction more s state)
      rw [List.foldl_cons, ihstates, ihdeepest, hstates, hdeepest, List.length_cons]
      exact ⟨by simp only; omega, rfl⟩

/-- The views that were put on a level are those of the log and of the next level, each once. -/
structure Listed (log : List SearchState) (s : Search) : Prop where
  expanded : s.expanded = (log ++ s.next).map SearchState.place
  nodup : s.expanded.Nodup

theorem Progress.listed (hp : Progress r direction more state s s') (hs : Listed log s) : Listed log s' := by
  induction hp with
  | start => exact hs
  | count _ ih => exact ⟨ih.expanded, ih.nodup⟩
  | learn _ _ _ _ _ _ ih => exact ⟨ih.expanded, ih.nodup⟩
  | enqueue _ _ _ ih =>
      unfold Search.enqueue
      split
      · exact ih
      · rename_i hnew
        refine ⟨?_, ?_⟩
        · simp [ih.expanded, SearchState.place]
        · simpa [List.nodup_append] using ⟨ih.nodup, fun e n he => fun h₁ h₂ => hnew (h₁ ▸ h₂ ▸ he)⟩

theorem Listed.level (hs : Listed log s) : Listed (log ++ s.next) (Search.level r direction more depth s) := by
  refine level_keeps (I := Listed (log ++ s.next)) (fun state _ s₁ s₂ hp h₁ => ?_) ⟨by simp [hs.expanded], hs.nodup⟩
  exact hp.listed ⟨h₁.expanded, h₁.nodup⟩

/-- A search has counted the states of its log, and there is no level after the last one. -/
structure Counted (limit depth : Nat) (log : List SearchState) (s : Search) : Prop extends Listed log s where
  states : s.stats.states = log.length
  deepest : s.stats.deepest < limit
  last : depth = limit → s.next = []

theorem Counted.level (hs : Counted limit depth log s) (hd : depth < limit) :
    Counted limit (depth + 1) (log ++ s.next) (Search.level r direction (depth + 1 < limit) depth s) := by
  obtain ⟨hstates, hdeepest⟩ := stats_foldl_expand r direction (depth + 1 < limit) s.next
    { s with next := [], stats := { s.stats with deepest := depth } }
  refine ⟨hs.toListed.level, ?_, ?_, fun hlast => ?_⟩
  · rw [Search.level, hstates, List.length_append, hs.states]
  · rw [Search.level, hdeepest]
    exact hd
  · have hnone : ∀ state ∈ (Search.level r direction (depth + 1 < limit) depth s).next, False := by
      refine level_keeps (I := fun s => ∀ state ∈ s.next, False) (fun state _ s₁ s₂ hp h₁ => ?_) nofun
      exact hp.next (fun _ hm _ => by simp [hlast] at hm) h₁
    exact List.eq_nil_iff_forall_not_mem.mpr hnone

theorem arrived_opening (r : Registry) (direction : Direction) (start : EntrypointId × NodeId) (known : Facts) :
    ∀ state ∈ (opening start known).next, Arrived r direction start [] state := by
  intro state hstate
  rw [List.mem_singleton.mp hstate]
  exact ⟨.start, rfl, by cases direction <;> rfl⟩

theorem sound_opening (r : Registry) (direction : Direction) (start : EntrypointId × NodeId) (known : Facts)
    (limit : Nat) : Sound r direction start known limit 0 (opening start known) :=
  ⟨fun _ _ h => h, fun _ _ h => .inl h, fun state hs => ⟨[], arrived_opening r direction start known state hs, rfl⟩⟩

theorem counted_opening (start : EntrypointId × NodeId) (known : Facts) (hl : 0 < limit) :
    Counted limit 0 [] (opening start known) :=
  ⟨⟨rfl, by simp [opening]⟩, rfl, hl, fun h => by omega⟩

/-- In the end nothing waits: either there was nothing to go on with, or the last level was reached. -/
theorem sound_outcome (r : Registry) (direction : Direction) (start : EntrypointId × NodeId) (known : Facts)
    (hl : 0 < limit) :
    let log := expansions r direction limit 0 (opening start known)
    let last := outcome r direction limit start known
    last.next = [] ∧ ∃ depth, Sound r direction start known limit depth last ∧ Counted limit depth log last := by
  intro log last
  obtain ⟨depth, hdepth, ⟨hsound, hcounted⟩, hend⟩ :=
    run_keeps (P := fun depth log s => Sound r direction start known limit depth s ∧ Counted limit depth log s)
      (fun depth log s hlt _ h => ⟨h.1.level hlt, h.2.level hlt⟩) limit 0 [] _ (Nat.zero_add limit)
      ⟨sound_opening r direction start known limit, counted_opening start known hl⟩
  refine ⟨?_, depth, hsound, hcounted⟩
  rcases Nat.lt_or_eq_of_le hdepth with hlt | heq
  · exact hend hlt
  · exact hcounted.last heq

end Search

namespace Registry

open Search

/-- A search ends when nothing is left to take up, it takes no view up twice, and it is never deeper than it may be. It
leaves what is known alone, and adds texts and constants only that are known at the end of a route. -/
theorem search_sound (r : Registry) {d : Nat} (hd : 1 ≤ d) (e : EntrypointId) (n : NodeId) (direction : Direction)
    (known : Facts) :
    let last := outcome r direction d (e, n) known
    let log := expansions r direction d 0 (opening (e, n) known)
    r.search d e n direction known = (last.found, last.stats) ∧ last.next = [] ∧
      (∀ i t, known.trace? i = some t → last.found.trace? i = some t) ∧
      (∀ i t, known.trace? i = none → last.found.trace? i = some t →
        isContent i ∧ r.Yields direction (e, n) d i t) ∧
      last.stats.deepest < d ∧ last.stats.states = log.length ∧ (log.map SearchState.place).Nodup := by
  intro last log
  obtain ⟨hnext, depth, hsound, hcounted⟩ := sound_outcome r direction (e, n) known hd
  refine ⟨?_, hnext, hsound.kept, fun i t hk ht => ?_, hcounted.deepest, hcounted.states, ?_⟩
  · rw [search_eq, Nat.max_eq_right hd]
  · rcases hsound.found i t ht with hk' | hyields
    · simp [hk] at hk'
    · exact hyields
  · have hlisted := hcounted.nodup
    rw [hcounted.expanded, List.map_append] at hlisted
    exact (List.nodup_append.mp hlisted).1

/-- A graph of views that write a field each, with what is known at them. -/
def writingGraph (e : EntrypointId) (views : List (FieldSignature × Facts)) : FlowGraph :=
  FlowGraph.run { entrypoint := e } <| views.zipIdx.flatMap fun v =>
    [.staticView 0 v.1.1, .editFacts v.2 fun _ => v.1.2, .registerOutgoing v.1.1 v.2]

/-- A value that was read from a field, which another entrypoint writes with what it read from a second field. A third
one writes that with a text. -/
def relayRegistry : Registry :=
  let account : FieldSignature := ⟨"app.Store", "account"⟩
  let token : FieldSignature := ⟨"app.Store", "token"⟩
  Table.ofEntries
    [(0, writingGraph 0 [(⟨"app.View", "shown"⟩, Facts.empty.add (.inputField account) (some [⟨0, 9⟩]))]),
      (1, writingGraph 1 [(account, Facts.empty.add (.inputField token) (some [⟨1, 4⟩, ⟨1, 5⟩]))]),
      (2, (writingGraph 2 [(token, Facts.empty.add (.text "secret") (some [⟨2, 1⟩, ⟨2, 2⟩, ⟨2, 3⟩]))]).recordAccess 2
        ⟨token, .put⟩)]

theorem relayRegistry_sound :
    1 ≤ 2 ∧ relayRegistry.Yields .backward (0, 0) 2 (.text "secret") (some [⟨2, 1⟩, ⟨2, 2⟩, ⟨1, 4⟩, ⟨1, 5⟩, ⟨0, 9⟩]) ∧
      (expansions relayRegistry .backward 2 0 (opening (0, 0) .empty)).length = 2 := by
  have hfound : (relayRegistry.search 2 0 0 .backward .empty).1.trace? (.text "secret") =
      some (some [⟨2, 1⟩, ⟨2, 2⟩, ⟨1, 4⟩, ⟨1, 5⟩, ⟨0, 9⟩]) := by decide +kernel
  have hstates : (relayRegistry.search 2 0 0 .backward .empty).2.states = 2 := by decide +kernel
  obtain ⟨hsearch, _, _, hyields, _, hlog, _⟩ := search_sound relayRegistry (d := 2) (by decide) 0 0 .backward .empty
  rw [hsearch] at hfound hstates
  exact ⟨by decide, (hyields _ _ rfl hfound).2, hlog.symm.trans hstates⟩

end Registry

end SinkFlow
