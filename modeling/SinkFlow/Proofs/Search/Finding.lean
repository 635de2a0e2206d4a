import SinkFlow.Proofs.Search.Route

/-!
What a field search is sure to find. A node that is expanded leaves nothing out: what is known behind its fields is
found, and every view there is expanded too, if the search may go on (`Covers`). A view is expanded once, with the
route over which it was reached first. So the search finds what is known at the end of a route unless a view on the
route was reached, no later, by way of the entrypoint where the route goes next.
-/

namespace SinkFlow

/-- What one step of a walk through a list makes sure of, and its other steps do not undo, holds at its end. -/
theorem foldl_reaches_of_mem {α σ : Type} {f : σ → α → σ} {Q : σ → Prop} {as : List α} {a : α} (ha : a ∈ as)
    (reach : ∀ s, Q (f s a)) (keep : ∀ s, ∀ b ∈ as, Q s → Q (f s b)) (s : σ) : Q (as.foldl f s) := by
  obtain ⟨before, after, rfl⟩ := List.append_of_mem ha
  rw [List.foldl_append, List.foldl_cons]
  exact List.foldlRecOn after f (reach _) fun s h b hb => keep s b (by simp [hb]) h

namespace Search

open Registry

variable {r : Registry} {direction : Direction} {more : Bool} {state : SearchState} {s s' : Search} {h : Hop}
  {start : EntrypointId × NodeId} {known : Facts} {hops : List Hop} {limit depth : Nat} {log : List SearchState}

/-! ## Expanding a node -/

/-- A search has found all texts and constants among some facts. -/
def Finds (facts : Facts) (s : Search) : Prop := facts.filter isContent ⊆ s.found

/-- The search has been at the end of a hop: it has found what is known there, and if it may go on, it does so from
there. -/
structure Met (r : Registry) (more : Bool) (h : Hop) (s : Search) : Prop where
  found : ∀ there, r.recordAt h.place = some there → s.Finds there.facts
  listed : more → h.place ∈ s.expanded

theorem Progress.subset (hp : Progress r direction more state s s') : s.found ⊆ s'.found := by
  refine hp.found (K := fun f => s.found ⊆ f) ?_ fun _ hi => hi
  intro h g record i t f _ _ _ _ _ hf j hj
  simp [hf j hj]

theorem Progress.mem_expanded {place : EntrypointId × NodeId} (hp : Progress r direction more state s s')
    (hplace : place ∈ s.expanded) : place ∈ s'.expanded := by
  induction hp with
  | start => exact hplace
  | count _ ih => exact ih
  | learn _ _ _ _ _ _ ih => exact ih
  | enqueue _ _ _ ih =>
      unfold Search.enqueue
      split
      · exact ih
      · simp [ih]

theorem Progress.met {more' : Bool} (hp : Progress r direction more state s s') (hm : Met r more' h s) :
    Met r more' h s' where
  found there hthere i hi := hp.subset i (hm.found there hthere i hi)
  listed hmore := hp.mem_expanded (hm.listed hmore)

theorem finds_collect (facts : Facts) (traceOf : Trace → Trace) : (s.collect facts traceOf).Finds facts := by
  intro i hi
  simp only [Facts.has_filter, Bool.and_eq_true] at hi
  obtain ⟨t, ht⟩ := Facts.trace?_of_has hi.2
  rw [collect, Facts.has_foldl_add, Bool.or_eq_true, List.any_eq_true]
  exact .inr ⟨(i, t), List.mem_filter.mpr ⟨Facts.mem_entries_iff.mpr ht, hi.1⟩, decide_eq_true rfl⟩

theorem mem_expanded_enqueue (s : Search) (state : SearchState) : state.place ∈ (s.enqueue state).expanded := by
  unfold enqueue
  split
  · assumption
  · simp [SearchState.place]

theorem met_enter {g : FlowGraph} {there : NodeRecord} (hg : r.get? h.entrypoint = some g)
    (hthere : g.record? h.view = some there) (s : Search) :
    Met r more h (enter direction more state (h.field, h.trace) (h.entrypoint, g) s h.view) := by
  have hrecord : r.recordAt h.place = some there := Option.bind_eq_some_iff.mpr ⟨g, hg, hthere⟩
  simp only [enter, hthere]
  split
  · refine ⟨fun there' hthere' => ?_, fun _ => mem_expanded_enqueue _ (state.after direction h)⟩
    cases hrecord.symm.trans hthere'
    rw [Finds, found_enqueue]
    exact finds_collect _ _
  · rename_i hmore
    refine ⟨fun there' hthere' => ?_, fun hm => absurd hm hmore⟩
    cases hrecord.symm.trans hthere'
    exact finds_collect _ _

theorem met_throughDoor (ht : state.Takes r direction h) (s : Search) :
    Met r more h (throughDoor r.inOrder direction more state s (h.field, h.trace)) := by
  obtain ⟨g, there, hg, hview, hthere⟩ := ht.crosses.view
  have hremote : (h.entrypoint, g) ∈ r.inOrder.filter fun remote => remote.1 ∉ state.visited :=
    List.mem_filter.mpr ⟨mem_sortBy.mpr (Table.get?_eq_some_iff.mp hg), by simpa using ht.new⟩
  have hprogress : ∀ s, ∀ remote ∈ r.inOrder.filter fun remote => remote.1 ∉ state.visited,
      ∀ view ∈ entries direction remote.2 h.field,
        Progress r direction more state s (enter direction more state (h.field, h.trace) remote s view) := by
    intro s remote hmem view hview
    obtain ⟨hmem, hnew⟩ := List.mem_filter.mp hmem
    have hg : r.get? remote.1 = some remote.2 := Table.get?_eq_some_iff.mpr (mem_sortBy.mp hmem)
    exact .enter (h := ⟨h.field, h.trace, remote.1, view⟩) ht.crosses.door hg hview (by simpa using hnew)
  refine foldl_reaches_of_mem hremote (fun s => ?_) (fun s remote hmem hm => ?_) s
  · refine foldl_reaches_of_mem hview (met_enter hg hthere) (fun s view hview hm => ?_) s
    exact (hprogress s _ hremote view hview).met hm
  · exact (Progress.foldl _ (fun s view hview => hprogress s remote hmem view hview) s).met hm

/-- Expanding a node leads over every hop from there that is open. -/
theorem met_expand (ht : state.Takes r direction h) (s : Search) :
    Met r more h (expand r direction more s state) := by
  obtain ⟨here, hhere, hdoor⟩ := ht.crosses.door
  have hrecord : (r.get? state.entrypoint).bind (·.record? state.node) = some here := hhere
  simp only [expand, hrecord]
  refine foldl_reaches_of_mem (mem_doors.mpr hdoor) (met_throughDoor ht) (fun s door hmem hm => ?_) _
  exact (Progress.throughDoor ⟨here, hhere, mem_doors.mp hmem⟩).met hm

theorem met_level (hstate : state ∈ s.next) (ht : state.Takes r direction h) :
    Met r more h (level r direction more depth s) := by
  refine foldl_reaches_of_mem hstate (met_expand ht) (fun s₁ state' _ hm => ?_) _
  exact (Progress.expand r direction more s₁ state').met ⟨hm.found, hm.listed⟩

theorem subset_level : s.found ⊆ (level r direction more depth s).found :=
  level_keeps (I := fun s' => s.found ⊆ s'.found) (fun _ _ _ _ hp h₁ i hi => hp.subset i (h₁ i hi)) fun _ hi => hi

/-! ## Whole searches -/

/-- The states of the log were reached before, and left nothing out: behind their fields all was found, and every view
there was reached, one hop later at most, if the search could go on. -/
structure Covers (r : Registry) (direction : Direction) (start : EntrypointId × NodeId) (limit : Nat) (depth : Nat)
    (log : List SearchState) (s : Search) : Prop where
  earlier : ∀ state ∈ log, ∃ hops, Arrived r direction start hops state ∧ hops.length < depth
  found : ∀ state ∈ log, ∀ h, state.Takes r direction h →
    ∀ there, r.recordAt h.place = some there → s.Finds there.facts
  onward : ∀ state ∈ log, ∀ h, state.Takes r direction h → state.visited.length < limit →
    ∃ state' ∈ log ++ s.next, state'.place = h.place ∧ state'.visited.length ≤ state.visited.length + 1

theorem Arrived.length_visited (ha : Arrived r direction start hops state) :
    state.visited.length = hops.length + 1 := by simp [ha.visited]

/-- After a level, everything that was put on a level is at most one hop further away than the states of the level. -/
theorem visited_level (hs : Sound r direction start known limit depth s)
    (hc : Covers r direction start limit depth log s) (hd : depth < limit) {more : Bool} :
    ∀ state ∈ log ++ s.next ++ (Search.level r direction more depth s).next, state.visited.length ≤ depth + 2 := by
  intro state hstate
  simp only [List.mem_append] at hstate
  obtain ⟨hops, ha, hlength⟩ : ∃ hops, Arrived r direction start hops state ∧ hops.length ≤ depth + 1 := by
    rcases hstate with (hstate | hstate) | hstate
    · obtain ⟨hops, ha, hlength⟩ := hc.earlier state hstate
      exact ⟨hops, ha, by omega⟩
    · obtain ⟨hops, ha, hlength⟩ := hs.next state hstate
      exact ⟨hops, ha, by omega⟩
    · obtain ⟨hops, ha, hlength⟩ := (hs.level hd).next state hstate
      exact ⟨hops, ha, by omega⟩
  rw [ha.length_visited]
  omega

theorem Covers.level (hs : Sound r direction start known limit depth s) (hl : Listed log s)
    (hc : Covers r direction start limit depth log s) (hd : depth < limit) :
    Covers r direction start limit (depth + 1) (log ++ s.next)
      (Search.level r direction (depth + 1 < limit) depth s) where
  earlier state hstate := by
    rcases List.mem_append.mp hstate with hstate | hstate
    · obtain ⟨hops, ha, hlength⟩ := hc.earlier state hstate
      exact ⟨hops, ha, by omega⟩
    · obtain ⟨hops, ha, hlength⟩ := hs.next state hstate
      exact ⟨hops, ha, by omega⟩
  found state hstate h ht there hthere := by
    rcases List.mem_append.mp hstate with hstate | hstate
    · exact fun i hi => subset_level i (hc.found state hstate h ht there hthere i hi)
    · exact (met_level hstate ht).found there hthere
  onward state hstate h ht hlimit := by
    rcases List.mem_append.mp hstate with hstate | hstate
    · obtain ⟨state', hstate', hplace⟩ := hc.onward state hstate h ht hlimit
      exact ⟨state', List.mem_append_left _ hstate', hplace⟩
    · -- The view is among those that were put on a level, since there is a next one.
      obtain ⟨hops, ha, hlength⟩ := hs.next state hstate
      have hvisited := ha.length_visited
      have hmore : decide (depth + 1 < limit) = true := by
        rw [decide_eq_true_eq]
        omega
      have hplace : h.place ∈ (Search.level r direction (depth + 1 < limit) depth s).expanded :=
        (met_level hstate ht).listed hmore
      rw [hl.level.expanded] at hplace
      obtain ⟨state', hstate', hplace⟩ := List.mem_map.mp hplace
      have hbound := visited_level hs hc hd state' hstate'
      exact ⟨state', hstate', hplace, by omega⟩

/-- In the end, what a search has expanded includes its start and leaves nothing out. -/
theorem covers_outcome (r : Registry) (direction : Direction) (start : EntrypointId × NodeId) (known : Facts)
    (hl : 0 < limit) :
    let log := expansions r direction limit 0 (opening start known)
    (∃ state ∈ log, Arrived r direction start [] state) ∧
      ∃ depth, Covers r direction start limit depth log (outcome r direction limit start known) := by
  intro log
  have hcovers : Covers r direction start limit 0 [] (opening start known) := ⟨nofun, nofun, nofun⟩
  obtain ⟨depth, _, ⟨_, _, hcovers⟩, _⟩ :=
    run_keeps (P := fun depth log s => Sound r direction start known limit depth s ∧ Listed log s ∧
        Covers r direction start limit depth log s)
      (fun depth log s hlt _ h => ⟨h.1.level hlt, h.2.1.level, h.2.2.level h.1 h.2.1 hlt⟩)
      limit 0 [] _ (Nat.zero_add limit)
      ⟨sound_opening r direction start known limit, (counted_opening start known hl).toListed, hcovers⟩
  refine ⟨?_, depth, hcovers⟩
  obtain ⟨levels, rfl⟩ : ∃ levels, limit = levels + 1 := ⟨limit - 1, by omega⟩
  exact ⟨_, List.mem_append_left _ List.mem_cons_self, arrived_opening r direction start known _ List.mem_cons_self⟩

end Search

namespace Registry

open Search

variable {r : Registry} {direction : Direction} {e : EntrypointId} {n : NodeId} {known : Facts} {hops : List Hop}
  {h : Hop} {start stop : EntrypointId × NodeId} {limit : Nat}

theorem Route.eq_start (hr : r.Route direction start [] stop) : stop = start := by
  generalize hnil : ([] : List Hop) = hops at hr
  cases hr with
  | start => rfl
  | hop _ _ _ => simp at hnil

theorem Route.last (hr : r.Route direction start (hops ++ [h]) stop) :
    stop = h.place ∧ h.entrypoint ∉ start.1 :: hops.map Hop.entrypoint ∧
      ∃ stop', r.Route direction start hops stop' ∧ r.Crosses direction stop' h := by
  generalize hhops : hops ++ [h] = hops' at hr
  cases hr with
  | start => simp at hhops
  | hop route crosses new =>
      obtain ⟨rfl, rfl⟩ := List.append_singleton_inj.mp hhops
      exact ⟨rfl, new, _, route, crosses⟩

/-- Nothing that is known beforehand is lost in a search. -/
theorem known_search (r : Registry) (maxDepth : Nat) (e : EntrypointId) (n : NodeId) (direction : Direction)
    (known : Facts) : known ⊆ (r.search maxDepth e n direction known).1 := by
  intro i hi
  obtain ⟨t, ht⟩ := Facts.trace?_of_has hi
  obtain ⟨_, _, hsound, _⟩ := sound_outcome r direction (e, n) known (Nat.le_max_left 1 maxDepth)
  rw [search_eq]
  exact Facts.has_of_trace? (hsound.kept i t ht)

/-! ## Obstructed routes -/

/-- No view on a route is also reached, in as many hops or fewer, by way of the entrypoint where the route goes next. -/
def Unobstructed (r : Registry) (direction : Direction) (start : EntrypointId × NodeId) (hops : List Hop) : Prop :=
  ∀ before h after, hops = before ++ h :: after → ∀ stop other, r.Route direction start before stop →
    r.Route direction start other stop → other.length ≤ before.length → h.entrypoint ∉ other.map Hop.entrypoint

theorem Unobstructed.init {hops' : List Hop} (hfree : r.Unobstructed direction start (hops ++ hops')) :
    r.Unobstructed direction start hops := by
  rintro before h after rfl
  exact hfree before h (after ++ hops') (by simp)

/-- A route of at most two hops is never obstructed: the view after its first hop is reached over that hop alone. -/
theorem Route.unobstructed (hr : r.Route direction start hops stop) (htwo : hops.length ≤ 2) :
    r.Unobstructed direction start hops := by
  rintro before h after rfl stop' other hbefore hother hle
  -- All that is left to look at is another hop to where the first one leads.
  match before, other with
  | _, [] => exact List.not_mem_nil
  | [b], [o] =>
      have hafter : after = [] := by simpa using htwo
      subst hafter
      have hbefore : r.Route direction start ([] ++ [b]) stop' := hbefore
      have hother : r.Route direction start ([] ++ [o]) stop' := hother
      have hplace : b.place = o.place := hbefore.last.1.symm.trans hother.last.1
      have hentrypoint : b.entrypoint = o.entrypoint := congrArg Prod.fst hplace
      have hr : r.Route direction start ([b] ++ [h]) stop := hr
      have hnew := hr.last.2.1
      simpa [hentrypoint] using List.not_mem_of_not_mem_cons hnew
  | b :: b' :: before, _ => simp at htwo
  | [], o :: other => simp at hle
  | [b], o :: o' :: other => simp at hle

/-- Whether fields lead from every graph to graphs of a higher rank only. -/
def ascends (rank : EntrypointId → Nat) (direction : Direction) (r : Registry) : Bool :=
  r.entries.all fun source => r.entries.all fun target => source.2.recorded.all fun here =>
    (doors direction here.facts).all fun door =>
      (entries direction target.2 door.1).isEmpty || decide (rank source.1 < rank target.1)

theorem Crosses.ascends {place : EntrypointId × NodeId} {rank : EntrypointId → Nat}
    (hc : r.Crosses direction place h) (hr : r.ascends rank direction) : rank place.1 < rank h.entrypoint := by
  obtain ⟨here, hhere, hdoor⟩ := hc.door
  obtain ⟨g, hg, hrecord⟩ := Option.bind_eq_some_iff.mp hhere
  obtain ⟨g', there, hg', hview, _⟩ := hc.view
  simp only [Registry.ascends, List.all_eq_true, Bool.or_eq_true, decide_eq_true_eq] at hr
  rcases hr (place.1, g) (Table.get?_eq_some_iff.mp hg) (h.entrypoint, g') (Table.get?_eq_some_iff.mp hg')
    here (FlowGraph.mem_recorded_of_record? hrecord) (h.field, h.trace) (mem_doors.mpr hdoor) with hnone | hlt
  · rw [List.isEmpty_iff.mp hnone] at hview
    cases hview
  · exact hlt

theorem Route.rank_le {rank : EntrypointId → Nat} (hr : r.Route direction start hops stop)
    (hascends : r.ascends rank direction) : ∀ h ∈ hops, rank h.entrypoint ≤ rank stop.1 := by
  induction hr with
  | start => nofun
  | @hop hops stop h _ crosses _ ih =>
      intro h' hh'
      rcases List.mem_append.mp hh' with hh' | hh'
      · exact Nat.le_of_lt (Nat.lt_of_le_of_lt (ih h' hh') (crosses.ascends hascends))
      · rw [List.mem_singleton.mp hh']
        exact Nat.le_refl _

theorem Route.init {hops' : List Hop} (hr : r.Route direction start (hops ++ hops') stop) :
    ∃ stop', r.Route direction start hops stop' := by
  generalize hall : hops ++ hops' = all at hr
  induction hr generalizing hops' with
  | start =>
      obtain ⟨rfl, _⟩ := List.append_eq_nil_iff.mp hall
      exact ⟨start, .start⟩
  | @hop all stop h route crosses new ih =>
      rcases List.eq_nil_or_concat hops' with rfl | ⟨rest, h', rfl⟩
      · rw [List.append_nil] at hall
        exact ⟨_, hall ▸ route.hop crosses new⟩
      · rw [List.concat_eq_append, ← List.append_assoc] at hall
        exact ih (List.append_inj_left' hall rfl)

theorem Route.stop_eq {stop' : EntrypointId × NodeId} (hr : r.Route direction start hops stop)
    (hr' : r.Route direction start hops stop') : stop = stop' := by
  cases hr with
  | start => exact hr'.eq_start.symm
  | hop _ _ _ => exact hr'.last.1.symm

/-- Where fields lead to graphs of a higher rank only, no route is obstructed: a route to a view goes over entrypoints
that are not above it, and goes on above it. -/
theorem Route.unobstructed_of_ascends {rank : EntrypointId → Nat} (hr : r.Route direction start hops stop)
    (hascends : r.ascends rank direction) : r.Unobstructed direction start hops := by
  rintro before h after rfl stop' other hbefore hother _ hmem
  rw [← List.singleton_append, ← List.append_assoc] at hr
  obtain ⟨_, hnext⟩ := hr.init
  obtain ⟨_, _, stop'', hbefore', hcrosses⟩ := hnext.last
  have hlt := hcrosses.ascends hascends
  rw [hbefore'.stop_eq hbefore] at hlt
  obtain ⟨o, ho, he⟩ := List.mem_map.mp hmem
  have hle := hother.rank_le hascends o ho
  rw [he] at hle
  omega

/-! ## Completeness -/

/-- Where an unobstructed route goes on, a search goes on as well if it came there in no more hops. -/
theorem Unobstructed.takes {state : SearchState} {other : List Hop}
    (hfree : r.Unobstructed direction start (hops ++ [h])) (hr : r.Route direction start hops state.place)
    (hcrosses : r.Crosses direction state.place h) (hne : h.entrypoint ≠ start.1)
    (ha : Arrived r direction start other state) (hvisited : state.visited.length ≤ hops.length + 1) :
    state.Takes r direction h := by
  refine ⟨hcrosses, ?_⟩
  rw [ha.length_visited] at hvisited
  rw [ha.visited]
  exact List.not_mem_cons_of_ne_of_not_mem hne (hfree hops h [] rfl state.place other hr ha.route (by omega))

/-- The end of an unobstructed route is expanded, and was reached in as many hops as the route has, or fewer. -/
theorem Route.expanded (hr : r.Route direction start hops stop) (hfree : r.Unobstructed direction start hops)
    (known : Facts) (hlimit : hops.length < limit) :
    ∃ state ∈ expansions r direction limit 0 (opening start known),
      state.place = stop ∧ state.visited.length ≤ hops.length + 1 := by
  have hpos : 0 < limit := Nat.zero_lt_of_lt hlimit
  obtain ⟨⟨first, hfirst, hopen⟩, depth, hcovers⟩ := covers_outcome r direction start known hpos
  obtain ⟨hnext, _⟩ := sound_outcome r direction start known hpos
  induction hr with
  | start => exact ⟨first, hfirst, hopen.route.eq_start, Nat.le_of_eq hopen.length_visited⟩
  | @hop hops stop h route crosses new ih =>
      rw [List.length_append, List.length_singleton] at hlimit
      obtain ⟨state, hstate, rfl, hvisited⟩ := ih hfree.init (by omega)
      -- The search may have come there in another way, but in no more hops.
      obtain ⟨other, ha, _⟩ := hcovers.earlier state hstate
      have htakes := hfree.takes route crosses (List.ne_of_not_mem_cons new) ha hvisited
      obtain ⟨state', hstate', hplace, hvisited'⟩ := hcovers.onward state hstate h htakes (by omega)
      rw [hnext, List.append_nil] at hstate'
      refine ⟨state', hstate', hplace, ?_⟩
      rw [List.length_append, List.length_singleton]
      omega

theorem Route.finds {there : NodeRecord} (hr : r.Route direction start (hops ++ [h]) stop)
    (hfree : r.Unobstructed direction start (hops ++ [h])) (known : Facts) (hlimit : hops.length < limit)
    (hthere : r.recordAt stop = some there) : (outcome r direction limit start known).Finds there.facts := by
  obtain ⟨rfl, new, stop', route, crosses⟩ := hr.last
  obtain ⟨state, hstate, rfl, hvisited⟩ := route.expanded hfree.init known hlimit
  obtain ⟨_, _, hcovers⟩ := covers_outcome r direction start known (Nat.zero_lt_of_lt hlimit)
  obtain ⟨other, ha, _⟩ := hcovers.earlier state hstate
  have htakes := hfree.takes route crosses (List.ne_of_not_mem_cons new) ha hvisited
  exact hcovers.found state hstate h htakes there hthere

/-- A search finds the texts and constants of every view, in another graph, of a field through which it leaves its
first node. -/
theorem finds_search {e' : EntrypointId} {g g' : FlowGraph} {here there : NodeRecord} {view : NodeId}
    {door : FieldSignature × Trace} (maxDepth : Nat) (hg : r.get? e = some g) (hhere : g.record? n = some here)
    (hdoor : door ∈ doors direction here.facts) (hg' : r.get? e' = some g') (hne : e' ≠ e)
    (hview : view ∈ entries direction g' door.1) (hthere : g'.record? view = some there) :
    there.facts.filter isContent ⊆ (r.search maxDepth e n direction known).1 := by
  let h : Hop := ⟨door.1, door.2, e', view⟩
  have hrecord : r.recordAt (e, n) = some here := Option.bind_eq_some_iff.mpr ⟨g, hg, hhere⟩
  have hroute : r.Route direction (e, n) ([] ++ [h]) h.place :=
    .hop .start ⟨⟨here, hrecord, mem_doors.mp hdoor⟩, g', there, hg', hview, hthere⟩ (by simpa using hne)
  rw [search_eq]
  exact hroute.finds (hroute.unobstructed (by simp)) known (Nat.le_max_left 1 maxDepth)
    (Option.bind_eq_some_iff.mpr ⟨g', hg', hthere⟩)

/-- A search finds all texts and constants that are known at the end of a route, if the route is no longer than the
search is deep and either has two hops at most or is not obstructed. -/
theorem search_complete {d : Nat} {there : NodeRecord} {i : Item} (hr : r.Route direction (e, n) hops stop)
    (hne : hops ≠ []) (hd : hops.length ≤ d)
    (hfree : hops.length ≤ 2 ∨ r.Unobstructed direction (e, n) hops) (hthere : r.recordAt stop = some there)
    (hi : isContent i) (hhas : there.facts.has i) : (r.search d e n direction known).1.has i := by
  have hfree : r.Unobstructed direction (e, n) hops := hfree.elim hr.unobstructed id
  obtain ⟨before, h, rfl⟩ := List.eq_nil_or_concat hops |>.resolve_left hne
  rw [List.concat_eq_append] at *
  rw [List.length_append, List.length_singleton] at hd
  rw [search_eq]
  refine hr.finds hfree known (by omega) hthere i ?_
  simp [hi, hhas]

/-- A value that was read from a field, which is written with what was read from a second one, and so on over three
entrypoints. The last one writes a text. -/
def ladderRegistry : Registry :=
  let field (name : String) : FieldSignature := ⟨"app.Store", name⟩
  let reads (name : String) : Facts := Facts.empty.add (.inputField (field name)) (some [])
  Table.ofEntries
    [(0, writingGraph 0 [(field "shown", reads "account")]), (1, writingGraph 1 [(field "account", reads "token")]),
      (2, writingGraph 2 [(field "token", reads "key")]),
      (3, writingGraph 3 [(field "key", Facts.empty.add (.text "secret") (some []))])]

theorem ladderRegistry_complete :
    ladderRegistry.ascends UInt32.toNat .backward ∧
      (ladderRegistry.search 3 0 0 .backward .empty).1.has (.text "secret") := by
  have hascends : ladderRegistry.ascends UInt32.toNat .backward := by decide +kernel
  have hroute : ladderRegistry.Route .backward (0, 0)
      ((([] ++ [⟨⟨"app.Store", "account"⟩, some [], 1, 0⟩]) ++ [⟨⟨"app.Store", "token"⟩, some [], 2, 0⟩]) ++
        [⟨⟨"app.Store", "key"⟩, some [], 3, 0⟩]) (3, 0) := by
    refine .hop (.hop (.hop .start ⟨⟨_, rfl, ?_⟩, _, _, rfl, ?_, rfl⟩ ?_) ⟨⟨_, rfl, ?_⟩, _, _, rfl, ?_, rfl⟩ ?_)
      ⟨⟨_, rfl, ?_⟩, _, _, rfl, ?_, rfl⟩ ?_
    all_goals decide +kernel
  have hfree := hroute.unobstructed_of_ascends hascends
  exact ⟨hascends, search_complete hroute (by decide) (by decide) (.inr hfree) rfl rfl (by decide +kernel)⟩

/-- A value that was read from two fields. Both are written with what was read from a third one, and only one of the
entrypoints that do so, the first, also writes the field behind that with a text. -/
def forkRegistry : Registry :=
  let left : FieldSignature := ⟨"app.Store", "left"⟩
  let right : FieldSignature := ⟨"app.Store", "right"⟩
  let shared : FieldSignature := ⟨"app.Store", "shared"⟩
  let token : FieldSignature := ⟨"app.Store", "token"⟩
  let reads (field : FieldSignature) : Facts := Facts.empty.add (.inputField field) (some [])
  Table.ofEntries
    [(0, writingGraph 0 [(⟨"app.View", "shown"⟩, (reads left).add (.inputField right) (some []))]),
      (1, writingGraph 1 [(left, reads shared), (token, Facts.empty.add (.text "secret") (some []))]),
      (2, writingGraph 2 [(right, reads shared)]),
      (3, writingGraph 3 [(shared, reads token)])]

/-- Longer routes may be lost. The write of the shared field is taken up once, on the way over the left field, and
there the entrypoint that writes the text is closed already. -/
theorem search_incomplete :
    ¬ ∀ (r : Registry) (direction : Direction) (d : Nat) (e : EntrypointId) (n : NodeId) (hops : List Hop)
      (stop : EntrypointId × NodeId) (there : NodeRecord) (i : Item) (known : Facts), 1 ≤ d → d ≤ 8 →
        r.Route direction (e, n) hops stop → hops ≠ [] → hops.length ≤ d → r.recordAt stop = some there →
          isContent i → there.facts.has i → (r.search d e n direction known).1.has i := by
  intro hall
  have hroute : forkRegistry.Route .backward (0, 0)
      ((([] ++ [⟨⟨"app.Store", "right"⟩, some [], 2, 0⟩]) ++ [⟨⟨"app.Store", "shared"⟩, some [], 3, 0⟩]) ++
        [⟨⟨"app.Store", "token"⟩, some [], 1, 1⟩]) (1, 1) := by
    refine .hop (.hop (.hop .start ⟨⟨_, rfl, ?_⟩, _, _, rfl, ?_, rfl⟩ ?_) ⟨⟨_, rfl, ?_⟩, _, _, rfl, ?_, rfl⟩ ?_)
      ⟨⟨_, rfl, ?_⟩, _, _, rfl, ?_, rfl⟩ ?_
    all_goals decide +kernel
  have hmissed : (forkRegistry.search 3 0 0 .backward .empty).1.has (.text "secret") = false := by decide +kernel
  have hfound := hall forkRegistry .backward 3 0 0 _ (1, 1) _ (.text "secret") .empty (by decide) (by decide) hroute
    (by decide) (by decide) rfl rfl (by decide +kernel)
  simp [hmissed] at hfound

end Registry

end SinkFlow
