import Mathlib.Data.List.Sort
import SinkFlow.Proofs.Flow.Lookup
import SinkFlow.Proofs.Flow.Operation

/-!
The tables of a flow graph stay consistent. Whatever operations a new graph goes through, in whatever order and with
whatever arguments, its tables agree with each other: constraints join two nodes that are there and are listed once, a
value has one node until the graph is cleared, and nothing is registered twice.
-/

namespace SinkFlow

theorem ConstraintKind.isBidirectional_iff {kind : ConstraintKind} :
    kind.isBidirectional ↔ kind ≠ .geUnidirectional := by
  cases kind <;> simp [ConstraintKind.isBidirectional]

namespace GraphTables

variable {g g' : GraphTables} {n m : NodeId} {q : ProcedureId} {slot : ValueSlot} {field : FieldSignature}

/-! ## The invariant -/

/-- What the tables say about the nodes. -/
structure WellFormed (g : GraphTables) : Prop where
  apart : ∀ c ∈ g.constraints, c.target ≠ c.source
  ends : ∀ c ∈ g.constraints, (g.node? c.target).isSome ∧ (g.node? c.source).isSome
  found : ∀ q slot n, g.valueNode? q slot = some n → ∃ l, g.kind? n = some (.value q slot l)
  unique : g.phase ≠ .cleared → ∀ q slot n l, g.kind? n = some (.value q slot l) → g.valueNode? q slot = some n
  statics : ∀ q field n, (g.scope q).statics.get? field = some n → ∃ k, g.kind? n = some (.staticField k field)
  chains : ∀ n, (g.chainsAt n).Nodup
  incoming : ∀ field, (g.incomingViews field).Nodup
  outgoing : ∀ field, (g.outgoingViews field).Nodup

/-- The course of a graph over its whole life: nodes keep what they stand for, and it stays well-formed. -/
def living : Course GraphTables where
  leads g g' := (∀ n kind, g.kind? n = some kind → g'.kind? n = some kind) ∧ (g.WellFormed → g'.WellFormed)
  refl _ := ⟨fun _ _ h => h, id⟩
  trans h h' := ⟨fun n kind hn => h'.1 n kind (h.1 n kind hn), h'.2 ∘ h.2⟩

/-- Nodes that keep what they stand for stay where they are. -/
theorem WellFormed.ends_of_kind (h : g.WellFormed) (hkind : ∀ n kind, g.kind? n = some kind → g'.kind? n = some kind)
    (hconstraints : g'.constraints = g.constraints) :
    ∀ c ∈ g'.constraints, (g'.node? c.target).isSome ∧ (g'.node? c.source).isSome := by
  have hkept : ∀ n, (g.node? n).isSome → (g'.node? n).isSome := by
    intro n hn
    obtain ⟨k, hk⟩ := Option.isSome_iff_exists.mp ((kind?_isSome g n).trans hn)
    exact (kind?_isSome g' n).symm.trans (Option.isSome_of_eq_some (hkind n k hk))
  intro c hc
  rw [hconstraints] at hc
  exact ⟨hkept _ (h.ends c hc).1, hkept _ (h.ends c hc).2⟩

/-! ## Stages -/

theorem living_advance {before after : Phase} (hg : g.advance before after = .ok g') (hbefore : before ≠ .cleared) :
    living.leads g g' := by
  obtain ⟨hphase, rfl⟩ := advance_eq_ok_iff.mp hg
  exact ⟨fun _ _ h => h, fun h => { h with unique := fun _ => h.unique (hphase ▸ hbefore) }⟩

theorem living_clear (hg : g.clear = .ok g') : living.leads g g' := by
  obtain ⟨_, rfl⟩ := clear_eq_ok_iff.mp hg
  refine ⟨fun n kind hn => hn, fun h => ?_⟩
  have hnone : ∀ c, c ∉ g.cleared.constraints := fun c => Array.not_mem_empty c
  refine ⟨fun c hc => absurd hc (hnone c), fun c hc => absurd hc (hnone c), ?_, fun hphase => absurd rfl hphase, ?_,
    fun n => ?_, h.incoming, h.outgoing⟩
  · rintro _ _ _ ⟨⟩
  · rintro _ _ _ ⟨⟩
  · rw [chainsAt, record?_cleared]
    split
    · cases g.record? n <;> exact List.nodup_nil
    · exact List.nodup_nil

/-! ## Nodes -/

theorem valueNode?_insert (g : GraphTables) (q q' : ProcedureId) (s : Scope) (slot : ValueSlot) :
    ({ g with scopes := g.scopes.insert q s } : GraphTables).valueNode? q' slot =
      if q' = q then s.values.get? slot else g.valueNode? q' slot := by
  rw [valueNode?_eq, scope_insert]
  split
  · rfl
  · rw [valueNode?_eq]

/-- A node may be added to a procedure whose scope then lists at most this node besides the earlier ones, and lists it
if it is a value. -/
theorem living_addNode {kind : NodeKind} {s : Scope} (hkind : ∀ q' slot l, kind = .value q' slot l → q' = q)
    (hvalues : ∀ slot n, s.values.get? slot = some n ↔
      (g.scope q).values.get? slot = some n ∨ n = g.nodes.size ∧ ∃ l, kind = .value q slot l)
    (hstatics : s.statics = (g.scope q).statics) :
    living.leads g { (g.pushNode kind).2 with scopes := g.scopes.insert q s } := by
  let grown : GraphTables := { (g.pushNode kind).2 with scopes := g.scopes.insert q s }
  have hnew : grown.kind? g.nodes.size = some kind := (kind?_push rfl _).trans (if_pos rfl)
  have hold : ∀ n k, g.kind? n = some k → grown.kind? n = some k := by
    intro n k hn
    rw [kind?_push (g := g) rfl]
    split
    · rename_i hsize
      rw [hsize, kind?_size] at hn
      cases hn
    · exact hn
  have hlisted : ∀ q' slot n, grown.valueNode? q' slot = some n ↔
      g.valueNode? q' slot = some n ∨ n = g.nodes.size ∧ ∃ l, kind = .value q' slot l := by
    intro q' slot n
    have hinsert : grown.valueNode? q' slot = _ := valueNode?_insert g q q' s slot
    rw [hinsert]
    split
    · rename_i hq
      rw [hvalues, hq, valueNode?_eq]
    · rename_i hq
      refine ⟨.inl, fun hn => hn.elim id ?_⟩
      rintro ⟨_, l, hl⟩
      exact absurd (hkind q' slot l hl) hq
  refine ⟨hold, fun h => ⟨h.apart, h.ends_of_kind hold rfl, ?_, ?_, ?_, fun n => ?_, h.incoming, h.outgoing⟩⟩
  · intro q' slot n hn
    rcases (hlisted q' slot n).mp hn with hn | ⟨rfl, l, hl⟩
    · obtain ⟨l, hl⟩ := h.found q' slot n hn
      exact ⟨l, hold _ _ hl⟩
    · exact ⟨l, hl ▸ hnew⟩
  · intro hphase q' slot n l hn
    rw [kind?_push (g := g) rfl] at hn
    refine (hlisted q' slot n).mpr ?_
    split at hn
    · cases hn
      exact .inr ⟨‹_›, l, rfl⟩
    · exact .inl (h.unique hphase q' slot n l hn)
  · intro q' field n hn
    have hscope : grown.scope q' = _ := scope_insert g q q' s
    have hn : (g.scope q').statics.get? field = some n := by
      rw [hscope] at hn
      split at hn
      · rename_i hq
        rwa [hq, ← hstatics]
      · exact hn
    obtain ⟨k, hk⟩ := h.statics q' field n hn
    exact ⟨k, hold _ _ hk⟩
  · have hchains : grown.chainsAt n = g.chainsAt n := by
      rw [chainsAt, chainsAt, ← record?_pushNode g kind n]
      rfl
    exact hchains ▸ h.chains n

theorem living_valueNode (g : GraphTables) (q : ProcedureId) (slot : ValueSlot) (literal : Option Literal) :
    living.leads g (g.valueNode q slot literal).2 := by
  unfold valueNode
  split
  · exact living.refl g
  · rename_i hnone
    rw [valueNode?_eq] at hnone
    refine living_addNode (g := g) (q := q) ?_ ?_ rfl
    · rintro _ _ _ ⟨⟩
      rfl
    · intro slot' n
      rw [Table.get?_insert]
      split
      · rename_i hslot
        subst hslot
        simp [hnone, pushNode, eq_comm]
      · rename_i hslot
        simp [Ne.symm hslot, scope, pushNode]

theorem living_pushNumbered (g : GraphTables) (q : ProcedureId) {kind : Nat → NodeKind}
    (hkind : ∀ k q slot l, kind k ≠ .value q slot l) : living.leads g (g.pushNumbered q kind).2 := by
  refine living_addNode (g := g) (q := q) ?_ ?_ rfl
  · exact fun q' slot l hl => absurd hl (hkind _ _ _ _)
  · simp [hkind]

theorem living_insertStatic {k : Nat} (hn : g.kind? n = some (.staticField k field)) :
    living.leads g { g with
      scopes := g.scopes.insert q { g.scope q with statics := (g.scope q).statics.insert field n } } := by
  refine ⟨fun _ _ h => h, fun h => { h with found := ?_, unique := ?_, statics := ?_ }⟩
  · intro q' slot m hm
    rw [valueNode?_insert] at hm
    split at hm
    · rename_i hq
      subst hq
      exact h.found q' slot m (by rw [valueNode?_eq]; exact hm)
    · exact h.found q' slot m hm
  · intro hphase q' slot m l hm
    rw [valueNode?_insert]
    split
    · rename_i hq
      subst hq
      exact (valueNode?_eq g q' slot).symm.trans (h.unique hphase q' slot m l hm)
    · exact h.unique hphase q' slot m l hm
  · intro q' field' m hm
    rw [scope_insert] at hm
    split at hm
    · rw [Table.get?_insert] at hm
      split at hm
      · rename_i hfield
        cases hm
        exact ⟨k, hfield ▸ hn⟩
      · exact h.statics q field' m hm
    · exact h.statics q' field' m hm

theorem living_representative (g : GraphTables) (q : ProcedureId) (field : FieldSignature) :
    living.leads g (g.representative q field).2 := by
  unfold representative
  split
  · exact living.refl g
  · have hview : living.leads g (g.pushNumbered q fun k => .staticField k field).2 := living_pushNumbered g q nofun
    refine living.trans hview (living_insertStatic (k := (g.scope q).nextNumber) ?_)
    exact (kind?_push (g := g) rfl _).trans (if_pos rfl)

/-- A node may be changed if it goes on to stand for the same. -/
theorem living_modify (g : GraphTables) (n : NodeId) {f : Node → Node} (hkind : ∀ v, (f v).kind = v.kind) :
    living.leads g { g with nodes := g.nodes.modify n f } := by
  have hkept := kind?_modify g n hkind
  have hhold : ∀ m kind, g.kind? m = some kind → ({ g with nodes := g.nodes.modify n f } : GraphTables).kind? m = some kind :=
    fun m kind hm => (hkept m).trans hm
  refine ⟨hhold, fun h => { h with ends := h.ends_of_kind hhold rfl, found := ?_, unique := ?_, statics := ?_ }⟩
  · exact fun q slot m hm => (hkept m).symm ▸ h.found q slot m hm
  · exact fun hphase q slot m l hm => h.unique hphase q slot m l (hkept m ▸ hm)
  · exact fun q field m hm => (hkept m).symm ▸ h.statics q field m hm

/-- The record of a node may be changed if it goes on to list no chain twice. -/
theorem living_editRecord (g : GraphTables) (n : NodeId) {edit : NodeRecord → NodeRecord}
    (hedit : ∀ r, r.chains.Nodup → (edit r).chains.Nodup) : living.leads g (g.editRecord n edit) := by
  refine ⟨fun _ _ h => h, fun h => { h with chains := fun m => ?_ }⟩
  rw [chainsAt, record?_editRecord]
  split
  · apply hedit
    have hchains := h.chains m
    cases hr : g.record? m with
    | none => exact List.nodup_nil
    | some r => simpa [chainsAt, hr] using hchains
  · exact h.chains m

theorem living_markSpecial (hg : g.markSpecial n = .ok g') : living.leads g g' := by
  obtain ⟨_, rfl⟩ := markSpecial_eq_ok_iff.mp hg
  exact living_modify g n fun _ => rfl

theorem living_attachChain {id : ChainId} (hg : g.attachChain n id = .ok g') : living.leads g g' := by
  obtain ⟨_, rfl⟩ := attachChain_eq_ok_iff.mp hg
  exact living_editRecord g n fun r hr => nodup_addOnce hr id

theorem living_chainFor {id : ChainId} (hg : g.chainFor n = .ok (id, g')) : living.leads g g' := by
  rcases chainFor_cases hg with ⟨_, rfl⟩ | ⟨_, hattach⟩
  · exact living.refl _
  · have hpush : living.leads g { g with chains := g.chains.push {} } := ⟨fun _ _ h => h, fun h => { h with }⟩
    exact living.trans hpush (living_attachChain hattach)

/-! ## Constraints -/

theorem chainsAt_pushConstraint (g : GraphTables) (c : Constraint) (m : NodeId) :
    (g.pushConstraint c).chainsAt m = g.chainsAt m := by
  have hedit : ∀ (h : GraphTables) (n : NodeId) (edit : NodeRecord → NodeRecord),
      (∀ r, (edit r).chains = r.chains) → (h.editRecord n edit).chainsAt m = h.chainsAt m := by
    intro h n edit hchains
    rw [chainsAt, record?_editRecord]
    split
    · cases hr : h.record? m <;> simp [chainsAt, hr, hchains]
    · rfl
  have hforward : (g.withForward c).chainsAt m = g.chainsAt m := hedit _ c.source _ fun _ => rfl
  rw [pushConstraint_eq]
  split
  · exact (hedit _ c.target (·.pushBackward g.constraints.size) fun _ => rfl).trans hforward
  · exact hforward

theorem living_pushConstraint {c : Constraint} (hapart : c.target ≠ c.source) (htarget : (g.node? c.target).isSome)
    (hsource : (g.node? c.source).isSome) : living.leads g (g.pushConstraint c) := by
  have hchains := chainsAt_pushConstraint g c
  have hcases : ∀ {p : Constraint → Prop}, (∀ d ∈ g.constraints, p d) → p c → ∀ d ∈ g.constraints.push c, p d := by
    intro p hold hc d hd
    rcases Array.mem_push.mp hd with hd | rfl
    · exact hold d hd
    · exact hc
  rw [pushConstraint_rest] at hchains ⊢
  refine ⟨fun _ _ h => h, fun h => { h with apart := ?_, ends := ?_, chains := fun m => ?_ }⟩
  · exact hcases h.apart hapart
  · exact hcases h.ends ⟨htarget, hsource⟩
  · rw [hchains]
    exact h.chains m

theorem living_addConstraint {target source : NodeId} {kind : ConstraintKind} {path : Path} {r : Option ConstraintId}
    (hg : g.addConstraint target kind source path = .ok (r, g')) : living.leads g g' := by
  obtain ⟨_, htarget, hsource, ⟨_, _, rfl⟩ | ⟨_, _, rfl⟩ | ⟨hapart, _, _, rfl⟩⟩ := addConstraint_cases hg
  · exact living.refl _
  · exact living.refl _
  · exact living_pushConstraint hapart (node?_isSome_iff.mpr htarget) (node?_isSome_iff.mpr hsource)

/-! ## Registered views and sinks -/

theorem nodup_listView {views : Table FieldSignature (List NodeId)} (h : ∀ field, ((views.get? field).getD []).Nodup)
    (field : FieldSignature) (n : NodeId) (field' : FieldSignature) :
    (((listView views field n).get? field').getD []).Nodup := by
  rw [listView, Table.get?_insert]
  split
  · exact nodup_addOnce (h field) n
  · exact h field'

theorem living_registerSink (g : GraphTables) (site : SinkSite) : living.leads g (g.registerSink site).2 := by
  unfold registerSink
  split
  · exact living.refl g
  · exact ⟨fun _ _ h => h, fun h => { h with }⟩

/-! ## Runs -/

theorem living_perform {op : Operation} (hg : g.perform op = .ok g') : living.leads g g' := by
  cases op with
  | beginBuilding | finishFields | finishPropagation => exact living_advance hg nofun
  | clear => exact living_clear hg
  | valueNode q slot literal => cases hg; exact living_valueNode g q slot literal
  | instanceView q object field => cases hg; exact living_pushNumbered g q nofun
  | staticView q field => cases hg; exact living_pushNumbered g q nofun
  | standIn q tag => cases hg; exact living_pushNumbered g q nofun
  | representative q field => cases hg; exact living_representative g q field
  | markSpecial n => exact living_markSpecial hg
  | editFacts n edit =>
      obtain ⟨_, _, rfl⟩ := exists_of_map_eq_ok hg
      exact living_editRecord g n fun _ h => h
  | addConstraint target kind source path =>
      obtain ⟨⟨r, _⟩, hadd, rfl⟩ := exists_of_map_eq_ok hg
      exact living_addConstraint hadd
  | registerIncoming field n =>
      cases hg
      exact ⟨fun _ _ h => h, fun h => { h with incoming := nodup_listView h.incoming field n }⟩
  | registerOutgoing field n =>
      cases hg
      exact ⟨fun _ _ h => h, fun h => { h with outgoing := nodup_listView h.outgoing field n }⟩
  | recordAccess statement access => cases hg; exact ⟨fun _ _ h => h, fun h => { h with }⟩
  | chainFor n =>
      obtain ⟨⟨id, _⟩, hchain, rfl⟩ := exists_of_map_eq_ok hg
      exact living_chainFor hchain
  | attachChain n id => exact living_attachChain hg
  | pushElement id e => cases hg; exact ⟨fun _ _ h => h, fun h => { h with }⟩
  | registerSink site => cases hg; exact living_registerSink g site

theorem living_run (g : GraphTables) (ops : List Operation) : living.leads g (g.run ops) :=
  leads_run (fun _ _ _ _ hg => living_perform hg) g

theorem wellFormed_new (e : EntrypointId) : ({ entrypoint := e } : GraphTables).WellFormed := by
  refine ⟨by simp, by simp, nofun, ?_, nofun, fun n => ?_, fun _ => .nil, fun _ => .nil⟩
  · intro _ q slot n l hn
    simp [kind?, node?] at hn
  · simp [chainsAt, record?]

theorem wellFormed_begun (e : EntrypointId) : ({ entrypoint := e, phase := .building } : GraphTables).WellFormed := by
  have hbegin : ({ entrypoint := e } : GraphTables).perform .beginBuilding = .ok { entrypoint := e, phase := .building } :=
    rfl
  exact (living_perform hbegin).2 (wellFormed_new e)

/-! ## What the tables say -/

theorem count_positions {p : Constraint → Bool} {id : ConstraintId} {c : Constraint}
    (hc : g.constraint? id = some c) : (g.positions p).count id = if p c then 1 else 0 := by
  have hnodup : (g.positions p).Nodup := List.nodup_range.filter _
  rw [hnodup.count]
  simp [mem_positions, hc]

/-- A record lists a constraint if its node does. -/
theorem exists_record_of_forwardIds {id : ConstraintId} (h : (g.forwardIds n).count id = 1) :
    ∃ r, g.record? n = some r ∧ r.forward.count id = 1 := by
  cases hr : g.record? n with
  | none => simp [forwardIds, hr] at h
  | some r => exact ⟨r, rfl, forwardIds_of_record? hr ▸ h⟩

/-- The tables of a graph as its clients see them. -/
structure Consistent (g : GraphTables) : Prop where
  /-- Nodes are numbered by position, there is room for one record of each, and it is that of the node. -/
  nodes : ∀ n v, g.node? n = some v → v.id = n
  size : g.records.size = g.nodes.size
  records : ∀ n r, g.record? n = some r → r.node = n
  /-- The index gives the position of a constraint, which joins two different nodes and is the only one of its key. -/
  index : ∀ target kind source id, g.constraintId? target kind source = some id ↔
    ∃ path, g.constraint? id = some ⟨target, kind, source, path⟩
  ends : ∀ id c, g.constraint? id = some c →
    c.target ≠ c.source ∧ c.target < g.nodes.size ∧ c.source < g.nodes.size
  keys : ∀ id id' c c', g.constraint? id = some c → g.constraint? id' = some c' → c.key = c'.key → id = id'
  /-- A constraint is listed once at its source, and once at its target if facts may flow back. -/
  forward : ∀ id c, g.constraint? id = some c → ∃ r, g.record? c.source = some r ∧ r.forward.count id = 1
  backward : ∀ id c, g.constraint? id = some c →
    ((∃ r, g.record? c.target = some r ∧ r.backward.count id = 1) ↔ c.kind ≠ .geUnidirectional)
  /-- Nothing else is listed, and older constraints come first. -/
  forwardOnly : ∀ n r, g.record? n = some r →
    r.forward.Pairwise (· < ·) ∧ ∀ id ∈ r.forward, ∃ c, g.constraint? id = some c ∧ c.source = n
  backwardOnly : ∀ n r, g.record? n = some r →
    r.backward.Pairwise (· < ·) ∧
      ∀ id ∈ r.backward, ∃ c, g.constraint? id = some c ∧ c.target = n ∧ c.kind ≠ .geUnidirectional
  values : g.phase ≠ .cleared → ∀ q slot n, g.valueNode? q slot = some n ↔ ∃ l, g.kind? n = some (.value q slot l)
  oneNode : g.phase ≠ .cleared → ∀ q slot n m l l',
    g.kind? n = some (.value q slot l) → g.kind? m = some (.value q slot l') → n = m
  statics : ∀ q field n, (g.scope q).statics.get? field = some n → ∃ k, g.kind? n = some (.staticField k field)
  /-- Nothing is registered twice. -/
  chains : ∀ n r, g.record? n = some r → r.chains.Nodup
  incoming : ∀ field, (g.incomingViews field).Nodup
  outgoing : ∀ field, (g.outgoingViews field).Nodup
  sinks : (g.sinks.map SinkSite.key).Nodup
  sinkKeys : ∀ key, g.sinkKeys.contains key ↔ key ∈ g.sinks.map SinkSite.key
  /-- Positions are 32-bit numbers as long as there are not too many of them. -/
  nodesFit : g.nodes.size ≤ UInt32.size → ∀ n, (g.node? n).isSome → n.toUInt32.toNat = n
  constraintsFit : g.constraints.size ≤ UInt32.size → ∀ id, (g.constraint? id).isSome → id.toUInt32.toNat = id

theorem toNat_toUInt32 {n size : Nat} (hsize : size ≤ UInt32.size) (hn : n < size) : n.toUInt32.toNat = n :=
  UInt32.toNat_ofNat_of_lt (Nat.lt_of_lt_of_le hn hsize)

/-- The list of the constraints at a node holds the positions of these constraints, in their order. -/
theorem positions_spec {p : Constraint → Bool} {ids : List ConstraintId} (h : ids = g.positions p) :
    ids.Pairwise (· < ·) ∧ ∀ id ∈ ids, ∃ c, g.constraint? id = some c ∧ p c := by
  subst h
  exact ⟨List.pairwise_lt_range.filter _, fun _ => mem_positions.mp⟩

theorem WellFormed.consistent (h : g.WellFormed) (hg : g.InStep) : g.Consistent where
  nodes := hg.ids
  size := hg.size
  records := hg.holders
  index := hg.index
  ends id c hc := by
    obtain ⟨htarget, hsource⟩ := h.ends c (Array.mem_of_getElem? hc)
    exact ⟨h.apart c (Array.mem_of_getElem? hc), node?_isSome_iff.mp htarget, node?_isSome_iff.mp hsource⟩
  keys id id' c c' hc hc' hkey := by
    obtain ⟨target, kind, source, path⟩ := c
    obtain ⟨target', kind', source', path'⟩ := c'
    cases hkey
    have hid := (hg.index target kind source id).mpr ⟨path, hc⟩
    rw [(hg.index target kind source id').mpr ⟨path', hc'⟩] at hid
    exact (Option.some.inj hid).symm
  forward id c hc := exists_record_of_forwardIds (by simp [hg.forward, count_positions hc])
  backward id c hc := by
    have hcount := count_positions (p := Constraint.carriesBack c.target) hc
    rw [← hg.backward] at hcount
    simp only [Constraint.carriesBack, decide_true, Bool.true_and] at hcount
    rw [← ConstraintKind.isBidirectional_iff]
    cases hr : g.record? c.target with
    | none => simpa [backwardIds, hr] using hcount
    | some r => simp [← backwardIds_of_record? hr, hcount]
  forwardOnly n r hr := by
    simpa using positions_spec ((forwardIds_of_record? hr).symm.trans (hg.forward n))
  backwardOnly n r hr := by
    simpa [Constraint.carriesBack, ConstraintKind.isBidirectional_iff] using
      positions_spec ((backwardIds_of_record? hr).symm.trans (hg.backward n))
  values hphase q slot n := ⟨h.found q slot n, fun ⟨l, hl⟩ => h.unique hphase q slot n l hl⟩
  oneNode hphase q slot n m l l' hn hm := by
    have hnode := h.unique hphase q slot n l hn
    rw [h.unique hphase q slot m l' hm] at hnode
    exact (Option.some.inj hnode).symm
  statics := h.statics
  chains n r hr := by simpa [chainsAt, hr] using h.chains n
  incoming := h.incoming
  outgoing := h.outgoing
  sinks := hg.sinks
  sinkKeys := hg.sinkKeys
  nodesFit hsize n hn := toNat_toUInt32 hsize (node?_isSome_iff.mp hn)
  constraintsFit hsize id hid := toNat_toUInt32 hsize (by simpa [constraint?] using hid)

/-- The list at a node holds the positions of the constraints that pass a test, if each of these is listed there and
nothing else is, older ones first. -/
theorem eq_positions {p : Constraint → Bool} {list : NodeRecord → List ConstraintId}
    (hlisted : ∀ id c, g.constraint? id = some c → p c → ∃ r, g.record? n = some r ∧ (list r).count id = 1)
    (honly : ∀ r, g.record? n = some r →
      (list r).Pairwise (· < ·) ∧ ∀ id ∈ list r, ∃ c, g.constraint? id = some c ∧ p c) :
    ((g.record? n).map list).getD [] = g.positions p := by
  have hmem : ∀ id, id ∈ ((g.record? n).map list).getD [] ↔ ∃ c, g.constraint? id = some c ∧ p c := by
    intro id
    constructor
    · intro hid
      cases hr : g.record? n with
      | none => simp [hr] at hid
      | some r => exact (honly r hr).2 id (by simpa [hr] using hid)
    · rintro ⟨c, hc, hp⟩
      obtain ⟨r, hr, hcount⟩ := hlisted id c hc hp
      have hid : id ∈ list r := List.count_pos_iff.mp (hcount.symm ▸ Nat.one_pos)
      simpa [hr] using hid
  have hsorted : (((g.record? n).map list).getD []).Pairwise (· < ·) := by
    cases hr : g.record? n with
    | none => exact .nil
    | some r => exact (honly r hr).1
  exact hsorted.eq_of_mem_iff (List.pairwise_lt_range.filter _) fun id => (hmem id).trans mem_positions.symm

/-- Tables that are consistent are those of a flow graph. -/
theorem Consistent.inStep (h : g.Consistent) : g.InStep where
  ids := h.nodes
  size := h.size
  holders := h.records
  index := h.index
  forward n := by
    refine eq_positions (fun id c hc hsource => ?_) fun r hr => by simpa using h.forwardOnly n r hr
    obtain rfl : c.source = n := by simpa using hsource
    exact h.forward id c hc
  backward n := by
    refine eq_positions (fun id c hc hback => ?_) fun r hr => ?_
    · simp only [Constraint.carriesBack, Bool.and_eq_true, decide_eq_true_eq] at hback
      obtain ⟨rfl, hkind⟩ := hback
      exact (h.backward id c hc).mpr (ConstraintKind.isBidirectional_iff.mp hkind)
    · simpa [Constraint.carriesBack, ConstraintKind.isBidirectional_iff] using h.backwardOnly n r hr
  sinks := h.sinks
  sinkKeys := h.sinkKeys

/-- Until a graph is cleared, it is well-formed if its tables are consistent. -/
theorem Consistent.wellFormed (h : g.Consistent) (hphase : g.phase ≠ .cleared) : g.WellFormed where
  apart c hc := by
    obtain ⟨id, hid⟩ := Array.getElem?_of_mem hc
    exact (h.ends id c hid).1
  ends c hc := by
    obtain ⟨id, hid⟩ := Array.getElem?_of_mem hc
    exact ⟨node?_isSome_iff.mpr (h.ends id c hid).2.1, node?_isSome_iff.mpr (h.ends id c hid).2.2⟩
  found q slot n := (h.values hphase q slot n).mp
  unique _ q slot n l hl := (h.values hphase q slot n).mpr ⟨l, hl⟩
  statics := h.statics
  chains n := by
    cases hr : g.record? n with
    | none => simp [chainsAt, hr]
    | some r => simpa [chainsAt, hr] using h.chains n r hr
  incoming := h.incoming
  outgoing := h.outgoing

end GraphTables

end SinkFlow
