import SinkFlow.Flow.Tables

/-!
The tables of a flow graph agree with each other: numbers are positions, the index says where each constraint is, and the
lists at the records are those of the constraints at their nodes. Every operation on the tables keeps this.
-/

namespace SinkFlow.GraphTables

variable {g g' : GraphTables} {c : Constraint} {n m : NodeId}

/-! ## Positions -/

/-- The positions of the constraints that pass a test. -/
def positions (g : GraphTables) (p : Constraint → Bool) : List ConstraintId :=
  (List.range g.constraints.size).filter fun i => (g.constraint? i).any p

theorem positions_push (h : g'.constraints = g.constraints.push c) (p : Constraint → Bool) :
    g'.positions p = g.positions p ++ if p c then [g.constraints.size] else [] := by
  have hold : ∀ i ∈ List.range g.constraints.size, (g'.constraint? i).any p = (g.constraint? i).any p := by
    intro i hi
    have hne : i ≠ g.constraints.size := Nat.ne_of_lt (List.mem_range.mp hi)
    simp [constraint?, h, Array.getElem?_push, hne]
  have hnew : g'.constraint? g.constraints.size = some c := by simp [constraint?, h]
  rw [positions, h, Array.size_push, List.range_succ, List.filter_append, List.filter_congr hold]
  cases hp : p c <;> simp [positions, hnew, hp]

theorem mem_positions {p : Constraint → Bool} {id : ConstraintId} :
    id ∈ g.positions p ↔ ∃ c, g.constraint? id = some c ∧ p c := by
  simp only [positions, List.mem_filter, List.mem_range, Option.any_eq_true]
  refine ⟨fun h => h.2, fun h => ⟨?_, h⟩⟩
  obtain ⟨c, hc, _⟩ := h
  exact (Array.getElem?_eq_some_iff.mp hc).1

theorem filterMap_range {α : Type} (as : List α) : (List.range as.length).filterMap (fun i => as[i]?) = as := by
  induction as with
  | nil => rfl
  | cons a as ih => simpa [List.range_succ_eq_map, List.filterMap_map, Function.comp_def] using ih

/-- The constraints at the positions of those that pass a test are these, in their order. -/
theorem filterMap_positions (g : GraphTables) (p : Constraint → Bool) :
    (g.positions p).filterMap g.constraint? = g.constraints.toList.filter p := by
  have hlist : (List.range g.constraints.size).filterMap g.constraint? = g.constraints.toList := by
    have hall := filterMap_range g.constraints.toList
    simp only [Array.length_toList, Array.getElem?_toList] at hall
    exact hall
  have hboth : (fun i => if (g.constraint? i).any p then g.constraint? i else none) =
      fun i => (g.constraint? i).filter p := by
    funext i
    cases hi : g.constraint? i <;> simp [Option.filter]
  rw [positions, ← hlist, List.filterMap_filter, List.filter_filterMap, hboth]

theorem constraint?_congr (h : g'.constraints = g.constraints) : g'.constraint? = g.constraint? := by
  funext id
  rw [constraint?, h, constraint?]

/-! ## Records -/

theorem record?_editRecord (g : GraphTables) (n : NodeId) (edit : NodeRecord → NodeRecord) (m : NodeId) :
    (g.editRecord n edit).record? m =
      if n = m ∧ m < g.records.size then some (edit ((g.record? m).getD { node := m })) else g.record? m := by
  simp only [record?, editRecord, Array.getElem?_modify]
  by_cases hm : n = m
  · subst hm
    by_cases hlt : n < g.records.size
    · simp [hlt]
    · simp [hlt]
  · simp [hm]

theorem record?_pushNode (g : GraphTables) (kind : NodeKind) (n : NodeId) :
    (g.pushNode kind).2.record? n = g.record? n := by
  simp only [record?, pushNode, Array.getElem?_push]
  split
  · rename_i hn
    simp [hn]
  · rfl

theorem forwardIds_editRecord (g : GraphTables) (n : NodeId) (edit : NodeRecord → NodeRecord)
    (added : List ConstraintId) (h : ∀ r, (edit r).forward = r.forward ++ added) (m : NodeId) :
    (g.editRecord n edit).forwardIds m = g.forwardIds m ++ if n = m ∧ m < g.records.size then added else [] := by
  rw [forwardIds, record?_editRecord]
  split
  · cases hr : g.record? m <;> simp [forwardIds, h, hr]
  · simp [forwardIds]

theorem backwardIds_editRecord (g : GraphTables) (n : NodeId) (edit : NodeRecord → NodeRecord)
    (added : List ConstraintId) (h : ∀ r, (edit r).backward = r.backward ++ added) (m : NodeId) :
    (g.editRecord n edit).backwardIds m = g.backwardIds m ++ if n = m ∧ m < g.records.size then added else [] := by
  rw [backwardIds, record?_editRecord]
  split
  · cases hr : g.record? m <;> simp [backwardIds, h, hr]
  · simp [backwardIds]

theorem forwardIds_editRecord_of_eq (g : GraphTables) (n : NodeId) (edit : NodeRecord → NodeRecord)
    (h : ∀ r, (edit r).forward = r.forward) (m : NodeId) : (g.editRecord n edit).forwardIds m = g.forwardIds m := by
  rw [forwardIds_editRecord g n edit [] fun r => by rw [h, List.append_nil], ite_self, List.append_nil]

theorem backwardIds_editRecord_of_eq (g : GraphTables) (n : NodeId) (edit : NodeRecord → NodeRecord)
    (h : ∀ r, (edit r).backward = r.backward) (m : NodeId) : (g.editRecord n edit).backwardIds m = g.backwardIds m := by
  rw [backwardIds_editRecord g n edit [] fun r => by rw [h, List.append_nil], ite_self, List.append_nil]

theorem holders_editRecord {g : GraphTables} (n : NodeId) {edit : NodeRecord → NodeRecord}
    (hnode : ∀ r, (edit r).node = r.node) (h : ∀ m r, g.record? m = some r → r.node = m) :
    ∀ m r, (g.editRecord n edit).record? m = some r → r.node = m := by
  intro m r hr
  rw [record?_editRecord] at hr
  split at hr
  · cases hr
    rw [hnode]
    cases hm : g.record? m with
    | none => rfl
    | some r => exact h m r hm
  · exact h m r hr

/-! ## Adding a constraint -/

/-- A constraint is listed at its source before it is listed at its target. -/
def withForward (g : GraphTables) (c : Constraint) : GraphTables :=
  ({ g with constraints := g.constraints.push c, index := g.index.insert c.key g.constraints.size } :
    GraphTables).editRecord c.source (·.pushForward g.constraints.size)

theorem pushConstraint_eq (g : GraphTables) (c : Constraint) :
    g.pushConstraint c =
      if c.kind.isBidirectional then (g.withForward c).editRecord c.target (·.pushBackward g.constraints.size)
      else g.withForward c := rfl

/-- Adding a constraint changes the arena, the index and the records, and nothing else. -/
theorem pushConstraint_rest (g : GraphTables) (c : Constraint) :
    g.pushConstraint c = { g with
      constraints := g.constraints.push c, index := g.index.insert c.key g.constraints.size
      records := (g.pushConstraint c).records } := by
  rw [pushConstraint_eq]
  split <;> rfl

theorem constraints_pushConstraint (g : GraphTables) (c : Constraint) :
    (g.pushConstraint c).constraints = g.constraints.push c := by rw [pushConstraint_rest]

theorem nodes_pushConstraint (g : GraphTables) (c : Constraint) : (g.pushConstraint c).nodes = g.nodes := by
  rw [pushConstraint_rest]

theorem size_withForward (g : GraphTables) (c : Constraint) : (g.withForward c).records.size = g.records.size :=
  Array.size_modify ..

theorem forwardIds_withForward (hsource : c.source < g.records.size) (m : NodeId) :
    (g.withForward c).forwardIds m = g.forwardIds m ++ if c.source = m then [g.constraints.size] else [] := by
  rw [withForward, forwardIds_editRecord _ _ _ [g.constraints.size] fun _ => rfl]
  by_cases hm : c.source = m
  · rw [if_pos ⟨hm, hm ▸ hsource⟩, if_pos hm]
    rfl
  · rw [if_neg fun h => hm h.1, if_neg hm]
    rfl

theorem backwardIds_withForward (g : GraphTables) (c : Constraint) (m : NodeId) :
    (g.withForward c).backwardIds m = g.backwardIds m :=
  backwardIds_editRecord_of_eq _ c.source (·.pushForward g.constraints.size) (fun _ => rfl) m

theorem forwardIds_pushConstraint (hsource : c.source < g.records.size) (m : NodeId) :
    (g.pushConstraint c).forwardIds m = g.forwardIds m ++ if c.source = m then [g.constraints.size] else [] := by
  rw [pushConstraint_eq]
  split
  · rw [forwardIds_editRecord_of_eq _ c.target (·.pushBackward g.constraints.size) fun _ => rfl]
    exact forwardIds_withForward hsource m
  · exact forwardIds_withForward hsource m

theorem backwardIds_pushConstraint (htarget : c.target < g.records.size) (m : NodeId) :
    (g.pushConstraint c).backwardIds m =
      g.backwardIds m ++ if c.carriesBack m then [g.constraints.size] else [] := by
  rw [pushConstraint_eq]
  split
  · rename_i hback
    rw [backwardIds_editRecord _ _ (·.pushBackward g.constraints.size) [g.constraints.size] fun _ => rfl,
      backwardIds_withForward, size_withForward]
    by_cases hm : c.target = m
    · rw [if_pos ⟨hm, hm ▸ htarget⟩]
      simp [Constraint.carriesBack, hback, hm]
    · rw [if_neg fun h => hm h.1]
      simp [Constraint.carriesBack, hm]
  · rename_i hback
    rw [backwardIds_withForward]
    simp [Constraint.carriesBack, hback]

theorem size_pushConstraint (g : GraphTables) (c : Constraint) :
    (g.pushConstraint c).records.size = g.records.size := by
  rw [pushConstraint_eq]
  split
  · exact (Array.size_modify ..).trans (size_withForward g c)
  · exact size_withForward g c

theorem constraint?_pushConstraint (g : GraphTables) (c : Constraint) (id : ConstraintId) :
    (g.pushConstraint c).constraint? id = if id = g.constraints.size then some c else g.constraint? id := by
  simp only [constraint?, constraints_pushConstraint, Array.getElem?_push]

theorem constraintId?_pushConstraint (g : GraphTables) (c : Constraint) (target : NodeId) (kind : ConstraintKind)
    (source : NodeId) :
    (g.pushConstraint c).constraintId? target kind source =
      if c.key = (target, kind, source) then some g.constraints.size else g.constraintId? target kind source := by
  rw [constraintId?, pushConstraint_rest, Table.get?_insert]
  simp only [eq_comm]
  rfl

/-! ## Operations that may be refused -/

theorem advance_eq_ok_iff {before after : Phase} :
    g.advance before after = .ok g' ↔ g.phase = before ∧ g' = { g with phase := after } := by
  by_cases hp : g.phase = before
  · simp [advance, expect, hp, bind, Except.bind, pure, Except.pure, eq_comm]
  · simp [advance, expect, hp, bind, Except.bind]

theorem clear_eq_ok_iff : g.clear = .ok g' ↔ g.phase = .propagated ∧ g' = g.cleared := by
  by_cases hp : g.phase = .propagated
  · simp [clear, expect, hp, bind, Except.bind, pure, Except.pure, eq_comm]
  · simp [clear, expect, hp, bind, Except.bind]

/-- What clearing keeps of the record of a node. -/
theorem record?_cleared (g : GraphTables) (n : NodeId) :
    g.cleared.record? n = if (g.node? n).any Node.isRetained then (g.record? n).map NodeRecord.stripped else none := by
  rw [record?, cleared, Array.getElem?_mapIdx, record?]
  cases g.records[n]? with
  | none => simp
  | some r => rfl

theorem markSpecial_eq_ok_iff :
    g.markSpecial n = .ok g' ↔
      n < g.nodes.size ∧ g' = { g with nodes := g.nodes.modify n fun v => { v with special := true } } := by
  by_cases hn : n < g.nodes.size
  · simp [markSpecial, expectNode, hn, bind, Except.bind, pure, Except.pure, eq_comm]
  · simp [markSpecial, expectNode, hn, bind, Except.bind]

theorem attachChain_eq_ok_iff {id : ChainId} :
    g.attachChain n id = .ok g' ↔ n < g.nodes.size ∧ g' = g.editRecord n (·.attach id) := by
  by_cases hn : n < g.nodes.size
  · simp [attachChain, expectNode, hn, bind, Except.bind, pure, Except.pure, eq_comm]
  · simp [attachChain, expectNode, hn, bind, Except.bind]

/-- The append chains that a node is on. -/
def chainsAt (g : GraphTables) (n : NodeId) : List ChainId := ((g.record? n).map NodeRecord.chains).getD []

/-- The chain of a node is the one that it was last put on, or else a new one that it is put on. -/
theorem chainFor_cases {id : ChainId} (hg : g.chainFor n = .ok (id, g')) :
    (g.chainsAt n).getLast? = some id ∧ g' = g ∨
      id = g.chains.size ∧ ({ g with chains := g.chains.push {} } : GraphTables).attachChain n id = .ok g' := by
  simp only [chainFor, expectNode, bind, Except.bind, pure, Except.pure] at hg
  by_cases hn : n < g.nodes.size <;> simp only [hn, if_true, if_false, reduceCtorEq] at hg
  rw [← chainsAt] at hg
  cases hlast : (g.chainsAt n).getLast? with
  | some last =>
      simp only [hlast, Except.ok.injEq, Prod.mk.injEq] at hg
      exact .inl ⟨congrArg some hg.1, hg.2.symm⟩
  | none =>
      simp only [hlast] at hg
      split at hg
      · cases hg
      · rename_i hattach
        simp only [Except.ok.injEq, Prod.mk.injEq] at hg
        obtain ⟨rfl, rfl⟩ := hg
        exact .inr ⟨rfl, hattach⟩

/-- A constraint is added between two nodes that are there, unless they are one node or it is there already. -/
theorem addConstraint_cases {t s : NodeId} {kind : ConstraintKind} {path : Path} {r : Option ConstraintId}
    (hg : g.addConstraint t kind s path = .ok (r, g')) :
    g.phase = .building ∧ t < g.nodes.size ∧ s < g.nodes.size ∧
      (t = s ∧ r = none ∧ g' = g ∨
        t ≠ s ∧ (∃ id, g.constraintId? t kind s = some id ∧ r = some id) ∧ g' = g ∨
        t ≠ s ∧ g.constraintId? t kind s = none ∧ r = some g.constraints.size ∧
          g' = g.pushConstraint ⟨t, kind, s, path⟩) := by
  simp only [addConstraint, expect, expectNode, bind, Except.bind, pure, Except.pure] at hg
  by_cases hphase : g.phase = .building <;> simp only [hphase, if_true, if_false, reduceCtorEq] at hg
  by_cases ht : t < g.nodes.size <;> simp only [ht, if_true, if_false, reduceCtorEq] at hg
  by_cases hs : s < g.nodes.size <;> simp only [hs, if_true, if_false, reduceCtorEq] at hg
  refine ⟨hphase, ht, hs, ?_⟩
  by_cases hts : t = s
  · simp only [hts, if_true, Except.ok.injEq, Prod.mk.injEq] at hg
    exact .inl ⟨hts, hg.1.symm, hg.2.symm⟩
  · simp only [hts, if_false] at hg
    cases hid : g.constraintId? t kind s with
    | none =>
        simp only [hid, Except.ok.injEq, Prod.mk.injEq] at hg
        exact .inr (.inr ⟨hts, rfl, hg.1.symm, hg.2.symm⟩)
    | some id =>
        simp only [hid, Except.ok.injEq, Prod.mk.injEq] at hg
        exact .inr (.inl ⟨hts, ⟨id, rfl, hg.1.symm⟩, hg.2.symm⟩)

/-! ## Agreement -/

/-- The tables agree with each other. -/
structure InStep (g : GraphTables) : Prop where
  /-- Nodes and records are numbered by position. -/
  ids : ∀ n v, g.node? n = some v → v.id = n
  size : g.records.size = g.nodes.size
  holders : ∀ n r, g.record? n = some r → r.node = n
  /-- A constraint is found by its key, and by the lists at its ends. -/
  index : ∀ target kind source id, g.constraintId? target kind source = some id ↔
    ∃ path, g.constraint? id = some ⟨target, kind, source, path⟩
  forward : ∀ n, g.forwardIds n = g.positions (·.source = n)
  backward : ∀ n, g.backwardIds n = g.positions (Constraint.carriesBack n)
  /-- A sink is known by its key. -/
  sinks : (g.sinks.map SinkSite.key).Nodup
  sinkKeys : ∀ key, g.sinkKeys.contains key ↔ key ∈ g.sinks.map SinkSite.key

theorem inStep_new (e : EntrypointId) (phase : Phase) : ({ entrypoint := e, phase } : GraphTables).InStep where
  ids n v hv := by simp [node?] at hv
  size := rfl
  holders n r hr := by simp [record?] at hr
  index t k s id := by simp [constraintId?, constraint?, Table.get?, EmptyCollection.emptyCollection, Table.empty]
  forward n := rfl
  backward n := rfl
  sinks := .nil
  sinkKeys key := by simp [Table.contains_iff, EmptyCollection.emptyCollection]

namespace InStep

/-- An edit of a record keeps the tables in step as long as it changes neither its lists of constraints nor its number. -/
theorem editRecord (h : g.InStep) (n : NodeId) {edit : NodeRecord → NodeRecord} (hnode : ∀ r, (edit r).node = r.node)
    (hforward : ∀ r, (edit r).forward = r.forward) (hbackward : ∀ r, (edit r).backward = r.backward) :
    (g.editRecord n edit).InStep where
  ids := h.ids
  size := (Array.size_modify ..).trans h.size
  holders := holders_editRecord n hnode h.holders
  index := h.index
  forward m := (forwardIds_editRecord_of_eq g n edit hforward m).trans (h.forward m)
  backward m := (backwardIds_editRecord_of_eq g n edit hbackward m).trans (h.backward m)
  sinks := h.sinks
  sinkKeys := h.sinkKeys

theorem editFacts (h : g.InStep) (n : NodeId) (edit : Facts → Facts) : (g.editFacts n edit).InStep :=
  h.editRecord n (fun _ => rfl) (fun _ => rfl) fun _ => rfl

/-! ## Stages -/

theorem advance (h : g.InStep) {before after : Phase} (hg : g.advance before after = .ok g') : g'.InStep := by
  obtain ⟨_, rfl⟩ := advance_eq_ok_iff.mp hg
  exact { h with }

/-- Clearing empties the arena, the index and all lists. -/
theorem cleared (h : g.InStep) : g.cleared.InStep := by
  have hrecord : ∀ n r, g.cleared.record? n = some r → ∃ r', g.record? n = some r' ∧ r = r'.stripped := by
    intro n r hr
    rw [record?_cleared] at hr
    split at hr
    · obtain ⟨r', hr', rfl⟩ := Option.map_eq_some_iff.mp hr
      exact ⟨r', hr', rfl⟩
    · cases hr
  refine ⟨h.ids, Array.size_mapIdx.trans h.size, fun n r hr => ?_, ?_, fun n => ?_, fun n => ?_, h.sinks, h.sinkKeys⟩
  · obtain ⟨r', hr', rfl⟩ := hrecord n r hr
    exact h.holders n r' hr'
  · intro target kind source id
    simp [GraphTables.cleared, constraintId?, constraint?, Table.get?, EmptyCollection.emptyCollection, Table.empty]
  · unfold forwardIds
    cases hr : g.cleared.record? n with
    | none => rfl
    | some r =>
        obtain ⟨r', _, rfl⟩ := hrecord n r hr
        rfl
  · unfold backwardIds
    cases hr : g.cleared.record? n with
    | none => rfl
    | some r =>
        obtain ⟨r', _, rfl⟩ := hrecord n r hr
        rfl

theorem clear (h : g.InStep) (hg : g.clear = .ok g') : g'.InStep := by
  obtain ⟨_, rfl⟩ := clear_eq_ok_iff.mp hg
  exact h.cleared

/-! ## Nodes -/

theorem pushNode (h : g.InStep) (kind : NodeKind) : (g.pushNode kind).2.InStep where
  ids n v hv := by
    simp only [node?, GraphTables.pushNode, Array.getElem?_push] at hv
    split at hv
    · cases hv
      exact Eq.symm ‹_›
    · exact h.ids n v hv
  size := by simp [GraphTables.pushNode, h.size]
  holders n r hr := h.holders n r (record?_pushNode g kind n ▸ hr)
  index := h.index
  forward n := by
    rw [forwardIds, record?_pushNode]
    exact h.forward n
  backward n := by
    rw [backwardIds, record?_pushNode]
    exact h.backward n
  sinks := h.sinks
  sinkKeys := h.sinkKeys

theorem valueNode (h : g.InStep) (procedure : ProcedureId) (slot : ValueSlot) (literal : Option Literal) :
    (g.valueNode procedure slot literal).2.InStep := by
  unfold GraphTables.valueNode
  split
  · exact h
  · exact { h.pushNode (.value procedure slot literal) with }

theorem pushNumbered (h : g.InStep) (procedure : ProcedureId) (kind : Nat → NodeKind) :
    (g.pushNumbered procedure kind).2.InStep := { h.pushNode (kind (g.scope procedure).nextNumber) with }

theorem representative (h : g.InStep) (procedure : ProcedureId) (field : FieldSignature) :
    (g.representative procedure field).2.InStep := by
  unfold GraphTables.representative
  split
  · exact h
  · exact { h.pushNumbered procedure fun k => .staticField k field with }

theorem markSpecial (h : g.InStep) (hg : g.markSpecial n = .ok g') : g'.InStep := by
  obtain ⟨_, rfl⟩ := markSpecial_eq_ok_iff.mp hg
  refine { h with ids := fun m v hv => ?_, size := h.size.trans (Array.size_modify ..).symm }
  simp only [node?, Array.getElem?_modify] at hv
  split at hv
  · obtain ⟨w, hw, rfl⟩ := Option.map_eq_some_iff.mp hv
    exact h.ids m w hw
  · exact h.ids m v hv

/-! ## Constraints -/

/-- The index leads to a constraint that is added under a new key, and as before to all others. -/
theorem index_pushConstraint (h : g.InStep) (hnew : g.constraintId? c.target c.kind c.source = none)
    (target : NodeId) (kind : ConstraintKind) (source : NodeId) (id : ConstraintId) :
    (g.pushConstraint c).constraintId? target kind source = some id ↔
      ∃ path, (g.pushConstraint c).constraint? id = some ⟨target, kind, source, path⟩ := by
  rw [constraintId?_pushConstraint, constraint?_pushConstraint]
  by_cases hkey : c.key = (target, kind, source)
  · simp only [Constraint.key, Prod.mk.injEq] at hkey
    obtain ⟨rfl, rfl, rfl⟩ := hkey
    rw [if_pos (show c.key = (c.target, c.kind, c.source) from rfl)]
    constructor
    · rintro ⟨⟩
      exact ⟨c.path, if_pos rfl⟩
    · rintro ⟨path, hc⟩
      split at hc
      · rw [‹id = _›]
      · exact absurd ((h.index ..).mpr ⟨path, hc⟩) (by simp [hnew])
  · rw [if_neg hkey, h.index]
    refine exists_congr fun path => ?_
    split
    · rename_i hid
      have hfresh : g.constraint? id = none := by simp [hid, constraint?]
      rw [hfresh]
      refine ⟨nofun, ?_⟩
      rintro ⟨⟩
      exact absurd rfl hkey
    · exact Iff.rfl

/-- A constraint with a new key may be added between two nodes that are there. -/
theorem pushConstraint (h : g.InStep) (htarget : c.target < g.nodes.size) (hsource : c.source < g.nodes.size)
    (hnew : g.constraintId? c.target c.kind c.source = none) : (g.pushConstraint c).InStep where
  ids m v hv := by
    rw [node?, nodes_pushConstraint] at hv
    exact h.ids m v hv
  size := by rw [size_pushConstraint, nodes_pushConstraint, h.size]
  holders := by
    have hlisted : ∀ m r, (g.withForward c).record? m = some r → r.node = m :=
      holders_editRecord c.source (fun _ => rfl) h.holders
    rw [pushConstraint_eq]
    split
    · exact holders_editRecord c.target (fun _ => rfl) hlisted
    · exact hlisted
  index := h.index_pushConstraint hnew
  forward m := by
    rw [forwardIds_pushConstraint (h.size.symm ▸ hsource), h.forward, positions_push (constraints_pushConstraint g c)]
    simp
  backward m := by
    rw [backwardIds_pushConstraint (h.size.symm ▸ htarget), h.backward,
      positions_push (constraints_pushConstraint g c)]
  sinks := by
    rw [pushConstraint_rest]
    exact h.sinks
  sinkKeys := by
    rw [pushConstraint_rest]
    exact h.sinkKeys

theorem addConstraint (h : g.InStep) {target source : NodeId} {kind : ConstraintKind} {path : Path}
    {r : Option ConstraintId} (hg : g.addConstraint target kind source path = .ok (r, g')) : g'.InStep := by
  obtain ⟨_, htarget, hsource, ⟨_, _, rfl⟩ | ⟨_, _, rfl⟩ | ⟨_, hnew, _, rfl⟩⟩ := addConstraint_cases hg
  · exact h
  · exact h
  · exact h.pushConstraint htarget hsource hnew

/-! ## Append chains and sinks -/

theorem attachChain (h : g.InStep) {id : ChainId} (hg : g.attachChain n id = .ok g') : g'.InStep := by
  obtain ⟨_, rfl⟩ := attachChain_eq_ok_iff.mp hg
  exact h.editRecord n (fun _ => rfl) (fun _ => rfl) fun _ => rfl

theorem chainFor (h : g.InStep) {id : ChainId} (hg : g.chainFor n = .ok (id, g')) : g'.InStep := by
  rcases chainFor_cases hg with ⟨_, rfl⟩ | ⟨_, hattach⟩
  · exact h
  · have hpush : ({ g with chains := g.chains.push {} } : GraphTables).InStep := { h with }
    exact hpush.attachChain hattach

theorem registerSink (h : g.InStep) (site : SinkSite) : (g.registerSink site).2.InStep := by
  unfold GraphTables.registerSink
  split
  · exact h
  · rename_i hknown
    have hnew : site.key ∉ g.sinks.map SinkSite.key := fun hmem => hknown ((h.sinkKeys site.key).mpr hmem)
    refine { h with sinks := ?_, sinkKeys := fun key => ?_ }
    · rw [List.map_append, List.nodup_append]
      refine ⟨h.sinks, by simp, fun k hk k' hk' heq => hnew ?_⟩
      rw [List.map_singleton, List.mem_singleton] at hk'
      exact hk' ▸ heq ▸ hk
    · have hkey := h.sinkKeys key
      rw [Table.contains_iff] at hkey hknown ⊢
      rw [Table.keys_insertIfNew, if_neg hknown, List.mem_append, hkey, List.map_append, List.mem_append]
      rfl

end InStep

end SinkFlow.GraphTables
