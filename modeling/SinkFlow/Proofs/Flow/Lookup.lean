import SinkFlow.Proofs.Flow.Shape

/-! What look-ups in a flow graph give after an operation. -/

namespace SinkFlow.GraphTables

variable {g g' : GraphTables} {n m : NodeId}

/-! ## Nodes and values -/

theorem node?_pushNode (g : GraphTables) (kind : NodeKind) :
    (g.pushNode kind).2.node? (g.pushNode kind).1 = some { id := g.nodes.size, kind } := by
  simp [pushNode, node?]

/-- What a node stands for. -/
def kind? (g : GraphTables) (n : NodeId) : Option NodeKind := (g.node? n).map Node.kind

theorem kind?_isSome (g : GraphTables) (n : NodeId) : (g.kind? n).isSome = (g.node? n).isSome := by
  simp [kind?]

theorem kind?_congr (h : g'.nodes = g.nodes) (n : NodeId) : g'.kind? n = g.kind? n := by
  simp only [kind?, node?, h]

theorem kind?_push {v : Node} (h : g'.nodes = g.nodes.push v) (n : NodeId) :
    g'.kind? n = if n = g.nodes.size then some v.kind else g.kind? n := by
  simp only [kind?, node?, h, Array.getElem?_push]
  split <;> rfl

theorem kind?_modify (g : GraphTables) (n : NodeId) {f : Node → Node} (hf : ∀ v, (f v).kind = v.kind) (m : NodeId) :
    ({ g with nodes := g.nodes.modify n f } : GraphTables).kind? m = g.kind? m := by
  simp only [kind?, node?, Array.getElem?_modify]
  split
  · cases g.nodes[m]? <;> simp [hf]
  · rfl

theorem kind?_size (g : GraphTables) : g.kind? g.nodes.size = none := by
  simp [kind?, node?]

theorem valueNode?_eq (g : GraphTables) (q : ProcedureId) (slot : ValueSlot) :
    g.valueNode? q slot = (g.scope q).values.get? slot := by
  cases h : g.scopes.get? q with
  | none => simp only [valueNode?, scope, h]; rfl
  | some s => simp [valueNode?, scope, h]

theorem scope_insert (g : GraphTables) (q q' : ProcedureId) (s : Scope) :
    ({ g with scopes := g.scopes.insert q s } : GraphTables).scope q' = if q' = q then s else g.scope q' := by
  simp only [scope, Table.get?_insert]
  split <;> rfl

/-! ## Views -/

theorem mem_listView (views : Table FieldSignature (List NodeId)) (field field' : FieldSignature) (n : NodeId) :
    m ∈ ((listView views field n).get? field').getD [] ↔ m ∈ (views.get? field').getD [] ∨ field' = field ∧ m = n := by
  rw [listView, Table.get?_insert]
  by_cases hf : field' = field <;> simp [hf]

end SinkFlow.GraphTables
