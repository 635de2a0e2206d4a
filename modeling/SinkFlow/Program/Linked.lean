import SinkFlow.Program.Tables

/-!
The index and the directed graph of a dependence graph agree with each other: edges only join statements that their
identifiers stand for. So edges between nodes are edges between identifiers, and neighbours come in the same order.
-/

namespace SinkFlow.DependenceTables

variable {L : DigraphLibrary Statement} {g g' : DependenceTables L} {id source target : StatementId} {n : Nat}
  {s : Statement}

/-- The index leads from the identifier of the statement at a node to that node. -/
def Indexes (g : DependenceTables L) (n : Nat) : Prop := ∃ id, g.idAt? n = some id ∧ g.index.get? id = some n

/-- The index and the directed graph agree with each other. -/
structure Linked (g : DependenceTables L) : Prop where
  /-- The index leads to statements with the identifier. -/
  index : ∀ id n, g.index.get? id = some n → g.idAt? n = some id
  known : ∀ s ∈ g.statements, (g.index.get? s.id).isSome
  /-- Edges only join nodes that the index leads to. -/
  ends : ∀ edge ∈ L.edges g.graph, g.Indexes edge.1 ∧ g.Indexes edge.2
  /-- The next identifier is a new one. -/
  fresh : ∀ id n, g.index.get? id = some n → id.toNat < g.nextId

theorem lt_of_idAt? (h : g.idAt? n = some id) : n < g.statements.length := by
  obtain ⟨s, hs, _⟩ := Option.map_eq_some_iff.mp h
  exact DigraphLibrary.lt_of_weight? hs

theorem linked_new (rootProcedure : Option ProcedureId) : ({ rootProcedure } : DependenceTables L).Linked where
  index _ _ h := by cases h
  known s hs := by simp [statements, L.weights_empty] at hs
  ends edge hedge := by simp [L.edges_empty] at hedge
  fresh _ _ h := by cases h

theorem idAt?_insert (g : DependenceTables L) (s : Statement) (n : Nat) :
    (g.insert s).idAt? n = if n = g.statements.length then some s.id else g.idAt? n := by
  have hnew : (L.addNode g.graph s).1 = g.statements.length := L.index_addNode g.graph s
  rw [idAt?, insert, DigraphLibrary.weight?_addNode, hnew]
  split <;> rfl

theorem index_insert (g : DependenceTables L) (s : Statement) (id : StatementId) :
    (g.insert s).index.get? id = if id = s.id then some g.statements.length else g.index.get? id := by
  rw [insert, Table.get?_insert, L.index_addNode]
  rfl

theorem statements_insert (g : DependenceTables L) (s : Statement) :
    (g.insert s).statements = g.statements ++ [s] := L.weights_addNode g.graph s

theorem edges_insert (g : DependenceTables L) (s : Statement) :
    L.edges (g.insert s).graph = L.edges g.graph := L.edges_addNode g.graph s

/-- A statement may be added under a new identifier, or under any as long as there are no edges. -/
theorem Linked.insert (h : g.Linked) (s : Statement) (hs : g.index.get? s.id = none ∨ L.edges g.graph = []) :
    (g.insert s).Linked where
  index id n hn := by
    rw [index_insert] at hn
    rw [idAt?_insert]
    split at hn
    · rw [if_pos (Option.some.inj hn).symm, ‹id = s.id›]
    · have hid := h.index id n hn
      rw [if_neg (Nat.ne_of_lt (lt_of_idAt? hid)), hid]
  known s' hs' := by
    rw [statements_insert] at hs'
    rw [index_insert]
    split
    · rfl
    · rcases List.mem_append.mp hs' with hs' | hs'
      · exact h.known s' hs'
      · rename_i hne
        exact absurd (congrArg Statement.id (List.mem_singleton.mp hs')) hne
  ends edge hedge := by
    rw [edges_insert] at hedge
    have hnew : g.index.get? s.id = none := hs.resolve_right (List.ne_nil_of_mem hedge)
    have hkept : ∀ n, g.Indexes n → (g.insert s).Indexes n := by
      rintro n ⟨id, hid, hn⟩
      refine ⟨id, ?_, ?_⟩
      · rw [idAt?_insert, if_neg (Nat.ne_of_lt (lt_of_idAt? hid)), hid]
      · rw [index_insert, if_neg, hn]
        rintro rfl
        simp [hnew] at hn
    exact (h.ends edge hedge).imp (hkept _) (hkept _)
  fresh id n hn := by
    rw [index_insert] at hn
    simp only [DependenceTables.insert]
    split at hn
    · subst ‹id = s.id›
      exact Nat.lt_of_lt_of_le (Nat.lt_succ_self _) (Nat.le_max_right _ _)
    · exact Nat.lt_of_lt_of_le (h.fresh id n hn) (Nat.le_max_left _ _)

/-- Statements may be added as long as there are no edges. -/
theorem Linked.insertAll (h : g.Linked) (hedges : L.edges g.graph = []) (ss : List Statement) :
    (ss.foldl DependenceTables.insert g).Linked := by
  induction ss generalizing g with
  | nil => exact h
  | cons s ss ih => exact ih (h.insert s (.inr hedges)) ((edges_insert g s).trans hedges)

theorem addEdge_eq_ok_iff :
    g.addEdge source target = .ok g' ↔ ∃ a b, g.index.get? source = some a ∧ g.index.get? target = some b ∧
      g' = { g with graph := L.updateEdge g.graph a b } := by
  unfold addEdge node
  cases g.index.get? source with
  | none => simp [bind, Except.bind]
  | some a =>
      cases g.index.get? target with
      | none => simp [bind, Except.bind]
      | some b => simp [bind, Except.bind, pure, Except.pure, eq_comm]

theorem idAt?_updateEdge {a b : Nat} (ha : a < g.statements.length) (hb : b < g.statements.length) (n : Nat) :
    ({ g with graph := L.updateEdge g.graph a b } : DependenceTables L).idAt? n = g.idAt? n :=
  congrArg (Option.map Statement.id) (DigraphLibrary.weight?_updateEdge ha hb n)

theorem Linked.addEdge (h : g.Linked) (hg : g.addEdge source target = .ok g') : g'.Linked := by
  obtain ⟨a, b, ha, hb, rfl⟩ := addEdge_eq_ok_iff.mp hg
  have hsource := h.index _ _ ha
  have htarget := h.index _ _ hb
  have hid := idAt?_updateEdge (lt_of_idAt? hsource) (lt_of_idAt? htarget)
  have hends : ∀ edge ∈ L.edges g.graph ++ [(a, b)], g.Indexes edge.1 ∧ g.Indexes edge.2 := by
    intro edge hedge
    rcases List.mem_append.mp hedge with hedge | hedge
    · exact h.ends edge hedge
    · rw [List.mem_singleton.mp hedge]
      exact ⟨⟨_, hsource, ha⟩, ⟨_, htarget, hb⟩⟩
  refine ⟨fun id n hn => (hid n).trans (h.index id n hn), fun s hs => ?_, fun edge hedge => ?_, h.fresh⟩
  · refine h.known s ?_
    simpa only [statements, L.weights_updateEdge g.graph (lt_of_idAt? hsource) (lt_of_idAt? htarget)] using hs
  · rw [DigraphLibrary.edges_updateEdge (lt_of_idAt? hsource) (lt_of_idAt? htarget), mem_addOnce] at hedge
    have hedge := hends edge (by simpa using hedge)
    simp only [Indexes, hid]
    exact hedge

/-! ## Edges by identifiers -/

theorem endIds?_eq_some_iff {edge : Nat × Nat} :
    g.endIds? edge = some (source, target) ↔ g.idAt? edge.1 = some source ∧ g.idAt? edge.2 = some target := by
  unfold endIds?
  cases g.idAt? edge.1 <;> cases g.idAt? edge.2 <;> simp

namespace Linked

/-- A node of an edge is the one that the identifier of its statement stands for. -/
theorem idAt?_iff (h : g.Linked) (hn : g.Indexes n) : g.idAt? n = some id ↔ g.index.get? id = some n := by
  refine ⟨fun hid => ?_, h.index id n⟩
  obtain ⟨id', hid', hn⟩ := hn
  cases hid.symm.trans hid'
  exact hn

theorem mem_edges (h : g.Linked) : (source, target) ∈ g.edges ↔
    ∃ a b, g.index.get? source = some a ∧ g.index.get? target = some b ∧ (a, b) ∈ L.edges g.graph := by
  simp only [edges, List.mem_filterMap, endIds?_eq_some_iff, Prod.exists]
  constructor
  · rintro ⟨a, b, hedge, ha, hb⟩
    obtain ⟨hia, hib⟩ := h.ends _ hedge
    exact ⟨a, b, (h.idAt?_iff hia).mp ha, (h.idAt?_iff hib).mp hb, hedge⟩
  · rintro ⟨a, b, ha, hb, hedge⟩
    exact ⟨a, b, hedge, h.index _ _ ha, h.index _ _ hb⟩

/-- Both ends of an edge are known statements. -/
theorem known_ends (h : g.Linked) (hedge : (source, target) ∈ g.edges) :
    (g.index.get? source).isSome ∧ (g.index.get? target).isSome := by
  obtain ⟨a, b, ha, hb, _⟩ := h.mem_edges.mp hedge
  exact ⟨Option.isSome_of_eq_some ha, Option.isSome_of_eq_some hb⟩

theorem end_iff (h : g.Linked) {a : Nat} (ha : g.Indexes a) (hsource : g.idAt? a = some source)
    (hn : g.index.get? id = some n) : a = n ↔ source = id := by
  have hiff : g.idAt? a = some id ↔ g.index.get? id = some a := h.idAt?_iff ha
  rw [hsource, hn, Option.some.injEq, Option.some.injEq] at hiff
  rw [hiff, eq_comm]

/-- Following edges from a node is following them from the identifier that stands for it. -/
theorem follow (h : g.Linked) (direction : EdgeDirection) (hn : g.index.get? id = some n) {edges : List (Nat × Nat)}
    (hedges : ∀ edge ∈ edges, g.Indexes edge.1 ∧ g.Indexes edge.2) :
    ((edges.filter (direction.near · = n)).map direction.far).filterMap g.idAt? =
      ((edges.filterMap g.endIds?).filter (direction.near · = id)).map direction.far := by
  induction edges with
  | nil => rfl
  | cons edge edges ih =>
      obtain ⟨a, b⟩ := edge
      obtain ⟨ha, hb⟩ := hedges _ List.mem_cons_self
      have ih := ih fun edge hedge => hedges edge (List.mem_cons_of_mem _ hedge)
      have ⟨source, hsource, _⟩ := ha
      have ⟨target, htarget, _⟩ := hb
      have hids : g.endIds? (a, b) = some (source, target) := endIds?_eq_some_iff.mpr ⟨hsource, htarget⟩
      rw [List.filterMap_cons_some hids]
      cases direction with
      | outgoing =>
          have hiff := h.end_iff ha hsource hn
          by_cases hid : source = id <;> simpa [EdgeDirection.near, EdgeDirection.far, hiff, hid, htarget] using ih
      | incoming =>
          have hiff := h.end_iff hb htarget hn
          by_cases hid : target = id <;> simpa [EdgeDirection.near, EdgeDirection.far, hiff, hid, hsource] using ih

/-- The neighbours of a statement are read off the edges by identifiers, although the library joins nodes and gives the
newest edge first. -/
theorem neighbors_eq (h : g.Linked) (id : StatementId) (direction : EdgeDirection) :
    g.neighbors id direction = (g.edges.filter (direction.near · = id)).map direction.far := by
  unfold neighbors
  cases hn : g.index.get? id with
  | none =>
      symm
      rw [List.map_eq_nil_iff, List.filter_eq_nil_iff]
      rintro ⟨source, target⟩ hedge hid
      obtain ⟨hsource, htarget⟩ := h.known_ends hedge
      cases direction with
      | outgoing =>
          have hid : source = id := of_decide_eq_true hid
          simp [hid, hn] at hsource
      | incoming =>
          have hid : target = id := of_decide_eq_true hid
          simp [hid, hn] at htarget
  | some n =>
      dsimp only
      rw [L.neighbors_eq g.graph direction (lt_of_idAt? (h.index id n hn)), List.filterMap_reverse,
        List.reverse_reverse]
      exact h.follow direction hn h.ends

/-! ## Answers -/

theorem id_of_statement? (h : g.Linked) (hs : g.statement? id = some s) : s.id = id := by
  obtain ⟨n, hn, hs⟩ := Option.bind_eq_some_iff.mp hs
  have hid := h.index id n hn
  rw [idAt?, hs] at hid
  exact Option.some.inj hid

/-- The index knows the identifiers of all statements, and no other ones. -/
theorem index_isSome (h : g.Linked) (id : StatementId) : (g.index.get? id).isSome ↔ id ∈ g.statementIds := by
  constructor
  · intro hid
    obtain ⟨n, hn⟩ := Option.isSome_iff_exists.mp hid
    obtain ⟨s, hs, rfl⟩ := Option.map_eq_some_iff.mp (h.index id n hn)
    rw [L.weight?_eq] at hs
    exact List.mem_map_of_mem (List.mem_of_getElem? hs)
  · intro hid
    obtain ⟨s, hs, rfl⟩ := List.mem_map.mp hid
    exact h.known s hs

theorem statement?_isSome (h : g.Linked) (id : StatementId) : (g.statement? id).isSome ↔ id ∈ g.statementIds := by
  rw [← h.index_isSome]
  constructor
  · intro hid
    obtain ⟨s, hs⟩ := Option.isSome_iff_exists.mp hid
    obtain ⟨n, hn, _⟩ := Option.bind_eq_some_iff.mp hs
    exact Option.isSome_of_eq_some hn
  · intro hid
    obtain ⟨n, hn⟩ := Option.isSome_iff_exists.mp hid
    obtain ⟨s, hs, _⟩ := Option.map_eq_some_iff.mp (h.index id n hn)
    exact Option.isSome_of_eq_some (Option.bind_eq_some_iff.mpr ⟨n, hn, hs⟩)

theorem mem_statementIds (h : g.Linked) (hs : g.statement? id = some s) : id ∈ g.statementIds :=
  (h.statement?_isSome id).mp (Option.isSome_of_eq_some hs)

theorem successors_eq (h : g.Linked) (id : StatementId) :
    g.successors id = (g.edges.filter (·.1 = id)).map Prod.snd := h.neighbors_eq id .outgoing

theorem predecessors_eq (h : g.Linked) (id : StatementId) :
    g.predecessors id = (g.edges.filter (·.2 = id)).map Prod.fst := h.neighbors_eq id .incoming

theorem mem_successors (h : g.Linked) : target ∈ g.successors source ↔ (source, target) ∈ g.edges := by
  simp [h.successors_eq]

theorem mem_predecessors (h : g.Linked) : source ∈ g.predecessors target ↔ target ∈ g.successors source := by
  simp [h.successors_eq, h.predecessors_eq]

/-- Where an edge leads is a known statement. -/
theorem successors_known (h : g.Linked) (htarget : target ∈ g.successors source) : target ∈ g.statementIds :=
  (h.index_isSome target).mp (h.known_ends (h.mem_successors.mp htarget)).2

theorem predecessorCount_eq (h : g.Linked) (id : StatementId) :
    g.predecessorCount id = (g.predecessors id).length := by
  unfold predecessorCount predecessors neighbors
  cases hn : g.index.get? id with
  | none => rfl
  | some n =>
      have hall : ∀ m ∈ L.neighbors g.graph n .incoming, (g.idAt? m).isSome := by
        intro m hm
        rw [L.neighbors_eq g.graph .incoming (lt_of_idAt? (h.index id n hn)), List.mem_reverse] at hm
        obtain ⟨edge, hedge, rfl⟩ := List.mem_map.mp hm
        obtain ⟨⟨source, hsource, _⟩, _⟩ := h.ends edge (List.mem_filter.mp hedge).1
        exact Option.isSome_of_eq_some hsource
      dsimp only
      rw [List.length_reverse, List.length_filterMap_eq_countP, List.countP_eq_length.mpr hall]

/-- The next identifier is not in use. -/
theorem get?_nextId (h : g.Linked) (hlt : g.nextId < UInt32.size) : g.index.get? (UInt32.ofNat g.nextId) = none := by
  cases hn : g.index.get? (UInt32.ofNat g.nextId) with
  | none => rfl
  | some n =>
      have hfresh := h.fresh _ n hn
      rw [UInt32.toNat_ofNat', Nat.mod_eq_of_lt hlt] at hfresh
      exact absurd hfresh (Nat.lt_irrefl _)

end Linked

end SinkFlow.DependenceTables
