import SinkFlow.Proofs.Build.Reason
import SinkFlow.Proofs.Flow.Course

/-!
Building extends a graph: nodes stay what they are, and nothing that was listed is taken back. A graph that is being
built stays sound: every node that one of its tables gives is there, and is of the kind that the table is for, and
every constraint is justified.
-/

namespace SinkFlow

namespace GraphTables

variable {g g' g'' : GraphTables} {n m : NodeId} {q : ProcedureId} {slot : ValueSlot} {t : Setting}

/-! ## Extension -/

/-- Whatever is in the first graph is in the second one too. A node keeps its kind, and a sink operand stays one. -/
structure Extends (g g' : GraphTables) : Prop where
  phase : g'.phase = g.phase
  entrypoint : g'.entrypoint = g.entrypoint
  nodes : ∀ n v, g.node? n = some v → ∃ v', g'.node? n = some v' ∧ v'.kind = v.kind ∧ (v.special → v'.special)
  values : ∀ q slot n, g.valueNode? q slot = some n → g'.valueNode? q slot = some n
  constraints : ∀ c ∈ g.constraints, c ∈ g'.constraints
  incoming : ∀ field, g.incomingViews field ⊆ g'.incomingViews field
  outgoing : ∀ field, g.outgoingViews field ⊆ g'.outgoingViews field
  accesses : ∀ id, (g.accesses.get? id).isSome → (g'.accesses.get? id).isSome
  sinks : g.sinks ⊆ g'.sinks

namespace Extends

theorem refl (g : GraphTables) : Extends g g where
  phase := rfl
  entrypoint := rfl
  nodes _ v hv := ⟨v, hv, rfl, id⟩
  values _ _ _ h := h
  constraints _ h := h
  incoming _ := List.Subset.refl _
  outgoing _ := List.Subset.refl _
  accesses _ h := h
  sinks := List.Subset.refl _

theorem trans (h : Extends g g') (h' : Extends g' g'') : Extends g g'' where
  phase := h'.phase.trans h.phase
  entrypoint := h'.entrypoint.trans h.entrypoint
  nodes n v hv := by
    obtain ⟨v', hv', hkind', hspecial'⟩ := h.nodes n v hv
    obtain ⟨v'', hv'', hkind'', hspecial''⟩ := h'.nodes n v' hv'
    exact ⟨v'', hv'', hkind''.trans hkind', hspecial'' ∘ hspecial'⟩
  values q slot n hn := h'.values q slot n (h.values q slot n hn)
  constraints c hc := h'.constraints c (h.constraints c hc)
  incoming field := List.Subset.trans (h.incoming field) (h'.incoming field)
  outgoing field := List.Subset.trans (h.outgoing field) (h'.outgoing field)
  accesses id hid := h'.accesses id (h.accesses id hid)
  sinks := List.Subset.trans h.sinks h'.sinks

theorem node?_isSome (h : Extends g g') (hn : (g.node? n).isSome) : (g'.node? n).isSome := by
  obtain ⟨v, hv⟩ := Option.isSome_iff_exists.mp hn
  obtain ⟨v', hv', _⟩ := h.nodes n v hv
  simp [hv']

theorem kind? {kind : NodeKind} (h : Extends g g') (hn : g.kind? n = some kind) : g'.kind? n = some kind := by
  obtain ⟨v, hv, rfl⟩ := Option.map_eq_some_iff.mp hn
  obtain ⟨v', hv', hkind, _⟩ := h.nodes n v hv
  simp [GraphTables.kind?, hv', hkind]

theorem kind?_eq_none (h : Extends g g') (hn : g'.kind? n = none) : g.kind? n = none := by
  cases hkind : g.kind? n with
  | none => rfl
  | some kind => cases hn.symm.trans (h.kind? hkind)

theorem special (h : Extends g g') (hn : (g.node? n).any Node.special) : (g'.node? n).any Node.special := by
  obtain ⟨v, hv, hspecial⟩ := Option.any_eq_true _ _ |>.mp hn
  obtain ⟨v', hv', _, hspecial'⟩ := h.nodes n v hv
  simpa [hv'] using hspecial' hspecial

end Extends

/-- Two nodes are one, or there is a constraint of a kind between them. -/
def Related (g : GraphTables) (target : NodeId) (kind : ConstraintKind) (source : NodeId) : Prop :=
  target = source ∨ ∃ path, ⟨target, kind, source, path⟩ ∈ g.constraints

theorem Related.mono {target source : NodeId} {kind : ConstraintKind} (h : Extends g g')
    (hr : g.Related target kind source) : g'.Related target kind source :=
  hr.imp_right fun ⟨path, hc⟩ => ⟨path, h.constraints _ hc⟩

theorem Shows.mono {field : FieldSignature} (h : Extends g g') (hn : g.Shows n field) : g'.Shows n field := by
  obtain ⟨kind, hkind, hfield⟩ := hn
  exact ⟨kind, h.kind? hkind, hfield⟩

theorem Shows.isField {field : FieldSignature} (h : g.Shows n field) : (g.node? n).any Node.isField := by
  obtain ⟨kind, hkind, hfield⟩ := h
  obtain ⟨v, hv, rfl⟩ := Option.map_eq_some_iff.mp hkind
  simp [hv, Node.isField, hfield]

theorem Shows.node?_isSome {field : FieldSignature} (h : g.Shows n field) : (g.node? n).isSome :=
  Option.isSome_of_any h.isField

theorem IsView.mono {object : Option ValueSlot} {field : FieldSignature} (h : Extends g g')
    (hn : g.IsView q object field n) : g'.IsView q object field n := by
  cases object <;> obtain ⟨k, hk⟩ := hn <;> exact ⟨k, h.kind? hk⟩

end GraphTables

/-! ## Reasons -/

theorem StatementRef.Names.mono {t : Setting} {g g' : GraphTables} {here : StatementRef} {q : ProcedureId}
    {kind : StatementKind} (h : g.Extends g') (hn : here.Names t g q kind) : here.Names t g' q kind :=
  ⟨hn.entrypoint.trans h.entrypoint.symm, hn.runs⟩

theorem StatementRef.NamesCall.mono {t : Setting} {g g' : GraphTables} {here : StatementRef} {q : ProcedureId}
    {call : Invoke} (h : g.Extends g') (hn : here.NamesCall t g q call) : here.NamesCall t g' q call :=
  ⟨hn.toNames.mono h, hn.api⟩

theorem GraphTables.Justified.mono {t : Setting} {g g' : GraphTables} {c : Constraint} (h : g.Extends g')
    (hc : g.Justified t c) : g'.Justified t c := by
  have hv := h.values
  cases hc with
  | values hhere hrelates hn hm => exact .values (hhere.mono h) hrelates (hv _ _ _ hn) (hv _ _ _ hm)
  | read hhere hn hview => exact .read (hhere.mono h) (hv _ _ _ hn) (hview.mono h)
  | write hhere hview hn => exact .write (hhere.mono h) (hview.mono h) (hv _ _ _ hn)
  | views hhere hfield hview hearlier => exact .views (hhere.mono h) hfield (hview.mono h) (hearlier.mono h)
  | append hcall hclass hmethod hreceiver hargument hn hm =>
      exact .append (hcall.mono h) hclass hmethod hreceiver hargument (hv _ _ _ hn) (hv _ _ _ hm)
  | built hcall hclass hmethod hreceiver hresult hn hm =>
      exact .built (hcall.mono h) hclass hmethod hreceiver hresult (hv _ _ _ hn) (hv _ _ _ hm)
  | rule hcall hmodel hset hrule hcarries htarget hsource hn hm =>
      exact .rule (hcall.mono h) hmodel hset hrule hcarries htarget hsource (hv _ _ _ hn) (hv _ _ _ hm)
  | source hcall hmodel hset hsource hresult hn hm =>
      exact .source (hcall.mono h) hmodel hset hsource hresult (hv _ _ _ hn) (h.kind? hm)
  | supplied hcall hassumes ha hopen hb hconstant hn hm =>
      exact .supplied (hcall.mono h) hassumes ha hopen hb hconstant (hv _ _ _ hn) (hv _ _ _ hm)
  | assumed hcall hassumes ha hb hn hm =>
      exact .assumed (hcall.mono h) hassumes ha hb (hv _ _ _ hn) (hv _ _ _ hm)
  | parameter hthere hhere hn hm => exact .parameter (hthere.mono h) (hhere.mono h) (hv _ _ _ hn) (hv _ _ _ hm)
  | result hthere hreturned hhere hn hm =>
      exact .result (hthere.mono h) hreturned (hhere.mono h) (hv _ _ _ hn) (hv _ _ _ hm)

/-! ## Soundness -/

/-- A site lists nodes that are marked as sink operands, and among them the node of every operand that the call at its
statement leaks. -/
structure SinkSite.IsOf (t : Setting) (g : GraphTables) (site : SinkSite) : Prop where
  entrypoint : site.entrypoint = g.entrypoint
  marked : ∀ n ∈ site.arguments, (g.node? n).any Node.special
  operands : ∀ statement call sink, t.program.statement? site.statement = some statement →
    statement.kind = .normal (.invoke call) → t.rules.sink? call.signature = some sink →
      ∀ index ∈ sink.arguments, ∀ slot, call.operand index = some slot →
        ∃ n ∈ site.arguments, g.valueNode? site.procedure slot = some n

theorem SinkSite.IsOf.mono {t : Setting} {g g' : GraphTables} {site : SinkSite} (h : g.Extends g')
    (hs : site.IsOf t g) : site.IsOf t g' where
  entrypoint := hs.entrypoint.trans h.entrypoint.symm
  marked n hn := h.special (hs.marked n hn)
  operands statement call sink hst hcall hsink index hi slot hslot := by
    obtain ⟨n, hn, hv⟩ := hs.operands statement call sink hst hcall hsink index hi slot hslot
    exact ⟨n, hn, h.values _ _ _ hv⟩

namespace GraphTables

variable {g g' g'' : GraphTables} {n m : NodeId} {q : ProcedureId} {slot : ValueSlot} {t : Setting}

/-- A graph that is being built, all of whose tables give nodes that are there and of the right kind, and all of whose
constraints are justified. -/
structure Sound (t : Setting) (g : GraphTables) : Prop where
  phase : g.phase = .building
  values : ∀ q slot n, g.valueNode? q slot = some n →
    ∃ v, g.node? n = some v ∧ v.kind = .value q slot (t.program.literal? q slot)
  statics : ∀ q field n, (g.scope q).statics.get? field = some n → g.IsView q none field n
  constraints : ∀ c ∈ g.constraints, g.Justified t c
  incoming : ∀ field, ∀ n ∈ g.incomingViews field, g.Shows n field
  outgoing : ∀ field, ∀ n ∈ g.outgoingViews field, g.Shows n field
  accesses : ∀ id access, g.accesses.get? id = some access →
    (t.program.statement? id).bind (·.kind.access?) = some access
  sinks : ∀ site ∈ g.sinks, site.IsOf t g

theorem Sound.node?_isSome (h : Sound t g) (hn : g.valueNode? q slot = some n) : (g.node? n).isSome := by
  obtain ⟨v, hv, _⟩ := h.values q slot n hn
  simp [hv]

/-- The course of a build: graphs are extended and stay sound. -/
def drawing (t : Setting) : Course GraphTables where
  leads g g' := Extends g g' ∧ (Sound t g → Sound t g')
  refl g := ⟨.refl g, id⟩
  trans h h' := ⟨h.1.trans h'.1, h'.2 ∘ h.2⟩

/-! ## Operations that leave the tables alone -/

/-- A graph with the same tables. Nodes may have been added, sink operands marked, and chains extended. -/
structure SameTables (g g' : GraphTables) : Prop where
  rest : { g' with nodes := g.nodes, records := g.records, chains := g.chains } = g
  nodes : ∀ n v, g.node? n = some v → ∃ v', g'.node? n = some v' ∧ v'.kind = v.kind ∧ (v.special → v'.special)

namespace SameTables

theorem of_eq (hrest : { g' with nodes := g.nodes, records := g.records, chains := g.chains } = g) (hnodes : g'.nodes = g.nodes) :
    SameTables g g' where
  rest := hrest
  nodes n v hv := ⟨v, by simpa only [node?, hnodes] using hv, rfl, id⟩

theorem trans (h : SameTables g g') (h' : SameTables g' g'') : SameTables g g'' where
  rest := by
    have hr := congrArg (fun k : GraphTables => { k with nodes := g.nodes, records := g.records, chains := g.chains }) h'.rest
    exact hr.trans h.rest
  nodes n v hv := by
    obtain ⟨v', hv', hkind', hspecial'⟩ := h.nodes n v hv
    obtain ⟨v'', hv'', hkind'', hspecial''⟩ := h'.nodes n v' hv'
    exact ⟨v'', hv'', hkind''.trans hkind', hspecial'' ∘ hspecial'⟩

theorem scopes (h : SameTables g g') : g'.scopes = g.scopes := by
  have hs := congrArg GraphTables.scopes h.rest
  exact hs

theorem constraints (h : SameTables g g') : g'.constraints = g.constraints := by
  have hc := congrArg GraphTables.constraints h.rest
  exact hc

theorem accesses (h : SameTables g g') : g'.accesses = g.accesses := by
  have ha := congrArg GraphTables.accesses h.rest
  exact ha

theorem incoming (h : SameTables g g') : g'.incoming = g.incoming := by
  have hi := congrArg GraphTables.incoming h.rest
  exact hi

theorem outgoing (h : SameTables g g') : g'.outgoing = g.outgoing := by
  have ho := congrArg GraphTables.outgoing h.rest
  exact ho

theorem sinks (h : SameTables g g') : g'.sinks = g.sinks := by
  have hs := congrArg GraphTables.sinks h.rest
  exact hs

theorem extended (h : SameTables g g') : Extends g g' where
  phase := by
    have hp := congrArg GraphTables.phase h.rest
    exact hp
  entrypoint := by
    have he := congrArg GraphTables.entrypoint h.rest
    exact he
  nodes := h.nodes
  values q slot n hn := by simpa only [valueNode?, h.scopes] using hn
  constraints c hc := h.constraints.symm ▸ hc
  incoming field := by simp only [incomingViews, h.incoming, List.Subset.refl]
  outgoing field := by simp only [outgoingViews, h.outgoing, List.Subset.refl]
  accesses id hid := h.accesses.symm ▸ hid
  sinks := h.sinks ▸ List.Subset.refl _

theorem sound (h : SameTables g g') (hg : Sound t g) : Sound t g' where
  phase := h.extended.phase.trans hg.phase
  values q slot n hn := by
    have hn : g.valueNode? q slot = some n := by simpa only [valueNode?, h.scopes] using hn
    obtain ⟨v, hv, hkind⟩ := hg.values q slot n hn
    obtain ⟨v', hv', hkind', _⟩ := h.nodes n v hv
    exact ⟨v', hv', hkind'.trans hkind⟩
  statics q field n hn := by
    have hn : (g.scope q).statics.get? field = some n := by simpa only [scope, h.scopes] using hn
    exact (hg.statics q field n hn).mono h.extended
  constraints c hc := (hg.constraints c (h.constraints ▸ hc)).mono h.extended
  incoming field n hn := by
    have hn : n ∈ g.incomingViews field := by simpa only [incomingViews, h.incoming] using hn
    exact (hg.incoming field n hn).mono h.extended
  outgoing field n hn := by
    have hn : n ∈ g.outgoingViews field := by simpa only [outgoingViews, h.outgoing] using hn
    exact (hg.outgoing field n hn).mono h.extended
  accesses id access ha := hg.accesses id access (h.accesses ▸ ha)
  sinks site hsite := (hg.sinks site (h.sinks ▸ hsite)).mono h.extended

theorem leads (h : SameTables g g') : (drawing t).leads g g' := ⟨h.extended, h.sound⟩

theorem pushNode (g : GraphTables) (kind : NodeKind) : SameTables g (g.pushNode kind).2 where
  rest := rfl
  nodes n v hv := by
    have hlt : n < g.nodes.size := (Array.getElem?_eq_some_iff.mp hv).1
    refine ⟨v, ?_, rfl, id⟩
    simpa [node?, GraphTables.pushNode, Array.getElem?_push, Nat.ne_of_lt hlt] using hv

theorem modify (g : GraphTables) (n : NodeId) {f : Node → Node} (hkind : ∀ v, (f v).kind = v.kind)
    (hspecial : ∀ v, v.special → (f v).special) : SameTables g { g with nodes := g.nodes.modify n f } where
  rest := rfl
  nodes m v hv := by
    have hv : g.nodes[m]? = some v := hv
    simp only [node?, Array.getElem?_modify, hv]
    split
    · exact ⟨f v, rfl, hkind v, hspecial v⟩
    · exact ⟨v, rfl, rfl, id⟩

theorem editRecord (g : GraphTables) (n : NodeId) (edit : NodeRecord → NodeRecord) :
    SameTables g (g.editRecord n edit) := of_eq rfl rfl

theorem pushElement (g : GraphTables) (id : ChainId) (e : AppendElement) : SameTables g (g.pushElement id e) :=
  of_eq rfl rfl

end SameTables

/-- Marking a node that is there succeeds. -/
theorem markSpecial_eq_ok (hn : (g.node? n).isSome) :
    ∃ g', g.markSpecial n = .ok g' ∧ SameTables g g' ∧ (g'.node? n).any Node.special := by
  obtain ⟨v, hv⟩ := Option.isSome_iff_exists.mp hn
  have hlt : n < g.nodes.size := node?_isSome_iff.mp hn
  refine ⟨_, by simp [markSpecial, expectNode, hlt, bind, Except.bind, pure, Except.pure]; rfl, ?_, ?_⟩
  · exact .modify g n (fun _ => rfl) fun _ _ => rfl
  · have hv : g.nodes[n]? = some v := hv
    simp [node?, Array.getElem?_modify, hv]

theorem attachChain_eq_ok (hn : (g.node? n).isSome) (id : ChainId) :
    ∃ g', g.attachChain n id = .ok g' ∧ SameTables g g' := by
  have hlt : n < g.nodes.size := node?_isSome_iff.mp hn
  exact ⟨_, by simp [attachChain, expectNode, hlt, bind, Except.bind, pure, Except.pure]; rfl, .editRecord g n _⟩

theorem chainFor_eq_ok (hn : (g.node? n).isSome) : ∃ id g', g.chainFor n = .ok (id, g') ∧ SameTables g g' := by
  have hlt : n < g.nodes.size := node?_isSome_iff.mp hn
  cases hlast : (((g.record? n).map NodeRecord.chains).getD []).getLast? with
  | some id =>
      refine ⟨id, g, ?_, .of_eq rfl rfl⟩
      simp [chainFor, expectNode, hlt, hlast, bind, Except.bind, pure, Except.pure]
  | none =>
      have hpush : SameTables g { g with chains := g.chains.push {} } := .of_eq rfl rfl
      obtain ⟨g', hattach, htables⟩ := attachChain_eq_ok (hpush.extended.node?_isSome hn) g.chains.size
      refine ⟨g.chains.size, g', ?_, hpush.trans htables⟩
      simp [chainFor, expectNode, hlt, hlast, hattach, bind, Except.bind, pure, Except.pure]

/-! ## Constraints and accesses -/

theorem extends_pushConstraint (g : GraphTables) (c : Constraint) : Extends g (g.pushConstraint c) := by
  rw [pushConstraint_rest]
  exact { Extends.refl g with constraints := fun _ hd => Array.mem_push.mpr (.inl hd) }

/-- A constraint may be added if there is a reason for it. -/
theorem leads_pushConstraint {c : Constraint} (hc : g.Justified t c) : (drawing t).leads g (g.pushConstraint c) := by
  have hext := extends_pushConstraint g c
  rw [pushConstraint_rest] at hext ⊢
  refine ⟨hext, fun hg => { hg with
    statics := hg.statics, constraints := ?_, sinks := fun site hs => (hg.sinks site hs).mono hext }⟩
  intro d hd
  rcases Array.mem_push.mp hd with hd | rfl
  · exact (hg.constraints d hd).mono hext
  · exact hc.mono hext

/-- Relating two nodes that are there succeeds while the graph is built. -/
theorem exists_addConstraint (hphase : g.phase = .building) (hn : (g.node? n).isSome) (hm : (g.node? m).isSome)
    (kind : ConstraintKind) (path : Path) : ∃ r g', g.addConstraint n kind m path = .ok (r, g') := by
  have hn := node?_isSome_iff.mp hn
  have hm := node?_isSome_iff.mp hm
  simp only [addConstraint, expect, hphase, expectNode, hn, hm, if_true, bind, Except.bind, pure, Except.pure]
  split
  · exact ⟨_, _, rfl⟩
  · split
    · exact ⟨_, _, rfl⟩
    · exact ⟨_, _, rfl⟩

theorem related_addConstraint {kind : ConstraintKind} {path : Path} {r : Option ConstraintId} (hstep : g.InStep)
    (hg : g.addConstraint n kind m path = .ok (r, g')) : g'.Related n kind m := by
  obtain ⟨_, _, _, ⟨hnm, _, rfl⟩ | ⟨_, ⟨id, hid, _⟩, rfl⟩ | ⟨_, _, _, rfl⟩⟩ := addConstraint_cases hg
  · exact .inl hnm
  · obtain ⟨path, hc⟩ := (hstep.index n kind m id).mp hid
    exact .inr ⟨path, Array.mem_of_getElem? hc⟩
  · exact .inr ⟨path, by simp [constraints_pushConstraint]⟩

theorem addConstraint_eq_ok {kind : ConstraintKind} {path : Path} (hstep : g.InStep) (hphase : g.phase = .building)
    (hn : (g.node? n).isSome) (hm : (g.node? m).isSome) (hreason : g.Justified t ⟨n, kind, m, path⟩) :
    ∃ r g', g.addConstraint n kind m path = .ok (r, g') ∧ (drawing t).leads g g' ∧ g'.Related n kind m := by
  obtain ⟨r, g', hadd⟩ := exists_addConstraint hphase hn hm kind path
  refine ⟨r, g', hadd, ?_, related_addConstraint hstep hadd⟩
  obtain ⟨_, _, _, ⟨_, _, rfl⟩ | ⟨_, _, rfl⟩ | ⟨_, _, _, rfl⟩⟩ := addConstraint_cases hadd
  · exact (drawing t).refl _
  · exact (drawing t).refl _
  · exact leads_pushConstraint hreason

theorem extends_recordAccess (g : GraphTables) (statement : StatementId) (access : FieldAccess) :
    Extends g (g.recordAccess statement access) := by
  refine { Extends.refl g with accesses := fun id hid => ?_ }
  simp only [recordAccess, Table.get?_insert]
  split
  · rfl
  · exact hid

theorem accesses_recordAccess (g : GraphTables) (statement : StatementId) (access : FieldAccess) :
    ((g.recordAccess statement access).accesses.get? statement).isSome := by
  simp [recordAccess, Table.get?_insert]

theorem leads_recordAccess {statement : StatementId} {access : FieldAccess}
    (haccess : (t.program.statement? statement).bind (·.kind.access?) = some access) :
    (drawing t).leads g (g.recordAccess statement access) := by
  have hext := extends_recordAccess g statement access
  refine ⟨hext, fun hg => { hg with
    constraints := fun c hc => (hg.constraints c hc).mono hext, accesses := ?_
    sinks := fun site hs => (hg.sinks site hs).mono hext }⟩
  intro id access' ha
  simp only [recordAccess, Table.get?_insert] at ha
  split at ha
  · rename_i hid
    cases ha
    exact hid ▸ haccess
  · exact hg.accesses id access' ha

/-! ## Scopes -/

/-- A scope may be changed as long as it keeps the nodes of its values and only gives sound ones. -/
theorem leads_insertScope {s : Scope}
    (hkeep : ∀ slot n, (g.scope q).values.get? slot = some n → s.values.get? slot = some n)
    (hvalues : Sound t g → ∀ slot n, s.values.get? slot = some n →
      ∃ v, g.node? n = some v ∧ v.kind = .value q slot (t.program.literal? q slot))
    (hstatics : Sound t g → ∀ field n, s.statics.get? field = some n → g.IsView q none field n) :
    (drawing t).leads g { g with scopes := g.scopes.insert q s } := by
  have hext : Extends g { g with scopes := g.scopes.insert q s } := by
    refine { Extends.refl g with values := fun q' slot n hn => ?_ }
    rw [valueNode?_eq] at hn ⊢
    rw [scope_insert]
    split
    · rename_i hq
      exact hkeep slot n (hq ▸ hn)
    · exact hn
  refine ⟨hext, fun hg => { hg with
    values := ?_, statics := ?_, constraints := fun c hc => (hg.constraints c hc).mono hext
    sinks := fun site hs => (hg.sinks site hs).mono hext }⟩
  · intro q' slot n hn
    rw [valueNode?_eq, scope_insert] at hn
    split at hn
    · rename_i hq
      subst hq
      exact hvalues hg slot n hn
    · exact hg.values q' slot n (valueNode?_eq g q' slot ▸ hn)
  · intro q' field n hn
    rw [scope_insert] at hn
    split at hn
    · exact hstatics hg field n hn
    · exact hg.statics q' field n hn

theorem leads_valueNode (g : GraphTables) (q : ProcedureId) (slot : ValueSlot) :
    (drawing t).leads g (g.valueNode q slot (t.program.literal? q slot)).2 := by
  unfold valueNode
  split
  · exact (drawing t).refl g
  · rename_i hnone
    refine (drawing t).trans (SameTables.pushNode g _).leads (leads_insertScope ?_ ?_ fun hg => hg.statics q)
    · intro slot' n hn
      rw [Table.get?_insert]
      split
      · rename_i hslot
        -- The slot had no node, so no other node is lost.
        have hn : g.valueNode? q slot' = some n := by rw [valueNode?_eq]; exact hn
        rw [hslot, hnone] at hn
        cases hn
      · exact hn
    · intro hg slot' n hn
      rw [Table.get?_insert] at hn
      split at hn
      · rename_i hslot
        subst hslot
        cases hn
        exact ⟨_, node?_pushNode g _, rfl⟩
      · exact hg.values q slot' n (by rw [valueNode?_eq]; exact hn)

theorem valueNode?_valueNode (g : GraphTables) (q : ProcedureId) (slot : ValueSlot) (literal : Option Literal) :
    (g.valueNode q slot literal).2.valueNode? q slot = some (g.valueNode q slot literal).1 := by
  unfold valueNode
  split
  · assumption
  · simp [valueNode?_eq, scope_insert, Table.get?_insert]

theorem leads_pushNumbered (g : GraphTables) (q : ProcedureId) (kind : Nat → NodeKind) :
    (drawing t).leads g (g.pushNumbered q kind).2 := by
  refine (drawing t).trans (SameTables.pushNode g (kind (g.scope q).nextNumber)).leads ?_
  refine leads_insertScope (fun _ _ hn => hn) ?_ fun hg => hg.statics q
  intro hg slot n hn
  exact hg.values q slot n (by rw [valueNode?_eq]; exact hn)

theorem kind?_pushNumbered (g : GraphTables) (q : ProcedureId) (kind : Nat → NodeKind) :
    ∃ k, (g.pushNumbered q kind).2.kind? (g.pushNumbered q kind).1 = some (kind k) :=
  ⟨_, (kind?_push (g := g) rfl _).trans (if_pos rfl)⟩

theorem leads_instanceView (g : GraphTables) (q : ProcedureId) (o : ValueSlot) (field : FieldSignature) :
    (drawing t).leads g (g.instanceView q o field).2 := leads_pushNumbered g q _

theorem kind?_instanceView (g : GraphTables) (q : ProcedureId) (o : ValueSlot) (field : FieldSignature) :
    ∃ k, (g.instanceView q o field).2.kind? (g.instanceView q o field).1 = some (.instanceField q k o field) :=
  kind?_pushNumbered g q _

theorem leads_staticView (g : GraphTables) (q : ProcedureId) (field : FieldSignature) :
    (drawing t).leads g (g.staticView q field).2 := leads_pushNumbered g q _

theorem kind?_staticView (g : GraphTables) (q : ProcedureId) (field : FieldSignature) :
    ∃ k, (g.staticView q field).2.kind? (g.staticView q field).1 = some (.staticField k field) :=
  kind?_pushNumbered g q _

theorem leads_standIn (g : GraphTables) (q : ProcedureId) (tag : String) :
    (drawing t).leads g (g.standIn q tag).2 := leads_pushNumbered g q _

theorem kind?_standIn (g : GraphTables) (q : ProcedureId) (tag : String) :
    ∃ k, (g.standIn q tag).2.kind? (g.standIn q tag).1 = some (.standIn k tag) := kind?_pushNumbered g q _

theorem leads_representative (g : GraphTables) (q : ProcedureId) (field : FieldSignature) :
    (drawing t).leads g (g.representative q field).2 := by
  unfold representative
  split
  · exact (drawing t).refl g
  · refine (drawing t).trans (leads_pushNumbered g q _) (leads_insertScope (fun _ _ hn => hn) ?_ ?_)
    · intro hg slot n hn
      exact hg.values q slot n (by rw [valueNode?_eq]; exact hn)
    · intro hg field' n hn
      rw [Table.get?_insert] at hn
      split at hn
      · rename_i hfield
        cases hn
        exact hfield ▸ kind?_pushNumbered g q fun k => .staticField k field
      · exact hg.statics q field' n hn

theorem isView_representative (hg : Sound t g) (q : ProcedureId) (field : FieldSignature) :
    (g.representative q field).2.IsView q none field (g.representative q field).1.1 := by
  unfold representative
  split
  · rename_i n hn
    refine hg.statics q field n ?_
    cases hs : g.scopes.get? q with
    | none => simp [hs] at hn
    | some s => simpa [scope, hs] using hn
  · exact kind?_pushNumbered g q fun k => .staticField k field

/-! ## Views and sinks -/

/-- A table still lists what another one lists, and besides only views of the field in question. -/
structure ListsMore (g : GraphTables) (views views' : Table FieldSignature (List NodeId)) : Prop where
  keeps : ∀ field, (views.get? field).getD [] ⊆ (views'.get? field).getD []
  adds : ∀ field, ∀ m ∈ (views'.get? field).getD [], m ∈ (views.get? field).getD [] ∨ g.Shows m field

theorem ListsMore.refl (g : GraphTables) (views : Table FieldSignature (List NodeId)) : g.ListsMore views views :=
  ⟨fun _ => List.Subset.refl _, fun _ _ hm => .inl hm⟩

theorem subset_listView (views : Table FieldSignature (List NodeId)) (field : FieldSignature) (n : NodeId)
    (field' : FieldSignature) :
    (views.get? field').getD [] ⊆ ((GraphTables.listView views field n).get? field').getD [] :=
  fun _ hm => (mem_listView _ _ _ _).mpr (.inl hm)

theorem ListsMore.listView (views : Table FieldSignature (List NodeId)) (field : FieldSignature)
    (hn : g.Shows n field) : g.ListsMore views (listView views field n) where
  keeps := subset_listView views field n
  adds field' m hm := by
    rcases (mem_listView _ _ _ _).mp hm with hm | ⟨rfl, rfl⟩
    · exact .inl hm
    · exact .inr hn

theorem extends_registerIncoming (g : GraphTables) (field : FieldSignature) (n : NodeId) :
    Extends g (g.registerIncoming field n) := { Extends.refl g with incoming := subset_listView g.incoming field n }

theorem extends_registerOutgoing (g : GraphTables) (field : FieldSignature) (n : NodeId) :
    Extends g (g.registerOutgoing field n) := { Extends.refl g with outgoing := subset_listView g.outgoing field n }

theorem leads_listing {incoming outgoing : Table FieldSignature (List NodeId)}
    (hin : g.ListsMore g.incoming incoming) (hout : g.ListsMore g.outgoing outgoing) :
    (drawing t).leads g { g with incoming, outgoing } := by
  have hext : Extends g { g with incoming, outgoing } :=
    { Extends.refl g with incoming := hin.keeps, outgoing := hout.keeps }
  refine ⟨hext, fun hg => { hg with
    constraints := fun c hc => (hg.constraints c hc).mono hext, incoming := ?_, outgoing := ?_
    sinks := fun s hs => (hg.sinks s hs).mono hext }⟩
  · exact fun field m hm => (hin.adds field m hm).elim (hg.incoming field m) id
  · exact fun field m hm => (hout.adds field m hm).elim (hg.outgoing field m) id

theorem leads_registerIncoming (field : FieldSignature) (hn : g.Shows n field) :
    (drawing t).leads g (g.registerIncoming field n) :=
  leads_listing (.listView g.incoming field hn) (.refl g g.outgoing)

theorem leads_registerOutgoing (field : FieldSignature) (hn : g.Shows n field) :
    (drawing t).leads g (g.registerOutgoing field n) :=
  leads_listing (.refl g g.incoming) (.listView g.outgoing field hn)

theorem extends_registerSink (g : GraphTables) (site : SinkSite) : Extends g (g.registerSink site).2 := by
  unfold registerSink
  split
  · exact .refl g
  · exact { Extends.refl g with sinks := List.subset_append_left _ _ }

theorem leads_registerSink {site : SinkSite} (hsite : site.IsOf t g) :
    (drawing t).leads g (g.registerSink site).2 := by
  have hext := extends_registerSink g site
  refine ⟨hext, fun hg => ?_⟩
  unfold registerSink at hext ⊢
  split
  · exact hg
  · rename_i hnew
    rw [if_neg hnew] at hext
    refine { hg with constraints := fun c hc => (hg.constraints c hc).mono hext, sinks := fun s hs => ?_ }
    rcases List.mem_append.mp hs with hs | hs
    · exact (hg.sinks s hs).mono hext
    · rw [List.mem_singleton.mp hs]
      exact hsite.mono hext

/-- After a sink was listed, there is one for its statement. -/
theorem exists_registerSink (h : g.InStep) (site : SinkSite) :
    ∃ s ∈ (g.registerSink site).2.sinks, s.procedure = site.procedure ∧ s.statement = site.statement := by
  unfold registerSink
  split
  · rename_i hknown
    obtain ⟨s, hs, hkey⟩ := List.mem_map.mp ((h.sinkKeys site.key).mp hknown)
    exact ⟨s, hs, congrArg Prod.fst hkey, congrArg Prod.snd hkey⟩
  · exact ⟨site, by simp, rfl, rfl⟩

end GraphTables

/-! ## Flow graphs -/

namespace FlowGraph

open GraphTables (SameTables)

variable {g : FlowGraph} {n m : NodeId} {t : Setting}

/-- The course of a build. -/
def drawing (t : Setting) : Course FlowGraph := (GraphTables.drawing t).along toGraphTables

theorem markSpecial_eq_ok (hn : (g.node? n).isSome) :
    ∃ g', g.markSpecial n = .ok g' ∧ SameTables g g' ∧ (g'.node? n).any Node.special := by
  obtain ⟨_, hmark, htables, hspecial⟩ := GraphTables.markSpecial_eq_ok hn
  obtain ⟨g', hg', rfl⟩ := exists_updated hmark
  exact ⟨g', hg', htables, hspecial⟩

theorem attachChain_eq_ok (hn : (g.node? n).isSome) (id : ChainId) :
    ∃ g', g.attachChain n id = .ok g' ∧ SameTables g g' := by
  obtain ⟨_, hattach, htables⟩ := GraphTables.attachChain_eq_ok hn id
  obtain ⟨g', hg', rfl⟩ := exists_updated hattach
  exact ⟨g', hg', htables⟩

theorem chainFor_eq_ok (hn : (g.node? n).isSome) : ∃ id g', g.chainFor n = .ok (id, g') ∧ SameTables g g' := by
  obtain ⟨id, _, hchain, htables⟩ := GraphTables.chainFor_eq_ok hn
  obtain ⟨g', hg', rfl⟩ := exists_attempted hchain
  exact ⟨id, g', hg', htables⟩

theorem exists_addConstraint (hphase : g.phase = .building) (hn : (g.node? n).isSome) (hm : (g.node? m).isSome)
    (kind : ConstraintKind) (path : Path) : ∃ r g', g.addConstraint n kind m path = .ok (r, g') := by
  obtain ⟨r, _, hadd⟩ := GraphTables.exists_addConstraint hphase hn hm kind path
  obtain ⟨g', hg', _⟩ := exists_attempted hadd
  exact ⟨r, g', hg'⟩

theorem addConstraint_eq_ok {kind : ConstraintKind} {path : Path} (hphase : g.phase = .building)
    (hn : (g.node? n).isSome) (hm : (g.node? m).isSome) (hreason : g.Justified t ⟨n, kind, m, path⟩) :
    ∃ r g', g.addConstraint n kind m path = .ok (r, g') ∧ (drawing t).leads g g' ∧ g'.Related n kind m := by
  obtain ⟨r, _, hadd, hl, hrelated⟩ := GraphTables.addConstraint_eq_ok g.inStep hphase hn hm hreason
  obtain ⟨g', hg', rfl⟩ := exists_attempted hadd
  exact ⟨r, g', hg', hl, hrelated⟩

end FlowGraph

end SinkFlow
