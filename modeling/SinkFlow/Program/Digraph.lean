import SinkFlow.Order

/-!
Libraries of directed graphs with a weight at each node: their operations, and what these promise. Any library that
keeps its promises will do; one that runs is given at the end.
-/

namespace SinkFlow

/-- Which edges of a node are followed. -/
inductive EdgeDirection where
  | outgoing
  | incoming
  deriving DecidableEq

namespace EdgeDirection

variable {α : Type}

/-- The end at which an edge is followed. -/
def near : EdgeDirection → α × α → α
  | outgoing => Prod.fst
  | incoming => Prod.snd

/-- The end that an edge is followed to. -/
def far : EdgeDirection → α × α → α
  | outgoing => Prod.snd
  | incoming => Prod.fst

end EdgeDirection

/-- A library of directed graphs. Nodes are numbered in the order in which they are added. -/
structure DigraphLibrary (ω : Type) where
  Graph : Type
  empty : Graph
  /-- Adds a node with a weight, and says which one it is. -/
  addNode : Graph → ω → Nat × Graph
  /-- Sees to it that an edge leads from one node to another. -/
  updateEdge : Graph → Nat → Nat → Graph
  /-- The weights of all nodes. -/
  weights : Graph → List ω
  /-- The weight of a node. -/
  weight? : Graph → Nat → Option ω
  /-- Where each edge starts and ends. -/
  edges : Graph → List (Nat × Nat)
  /-- The other ends of the edges of a node. -/
  neighbors : Graph → Nat → EdgeDirection → List Nat
  weights_empty : weights empty = []
  edges_empty : edges empty = []
  index_addNode : ∀ g w, (addNode g w).1 = (weights g).length
  weights_addNode : ∀ g w, weights (addNode g w).2 = weights g ++ [w]
  edges_addNode : ∀ g w, edges (addNode g w).2 = edges g
  weight?_eq : ∀ g n, weight? g n = (weights g)[n]?
  weights_updateEdge : ∀ g {a b}, a < (weights g).length → b < (weights g).length →
    weights (updateEdge g a b) = weights g
  /-- Edges are kept in the order in which they are added. -/
  edges_updateEdge_of_new : ∀ g {a b}, a < (weights g).length → b < (weights g).length → (a, b) ∉ edges g →
    edges (updateEdge g a b) = edges g ++ [(a, b)]
  /-- An edge that is there is not added once more. -/
  edges_updateEdge_of_mem : ∀ g {a b}, a < (weights g).length → b < (weights g).length → (a, b) ∈ edges g →
    edges (updateEdge g a b) = edges g
  /-- The neighbours over the newest edges come first. -/
  neighbors_eq : ∀ g {n} direction, n < (weights g).length →
    neighbors g n direction = (((edges g).filter (direction.near · = n)).map direction.far).reverse

namespace DigraphLibrary

variable {ω : Type} {L : DigraphLibrary ω} {g : L.Graph} {a b n : Nat} {w : ω}

theorem lt_of_weight? (h : L.weight? g n = some w) : n < (L.weights g).length := by
  rw [L.weight?_eq] at h
  exact (List.getElem?_eq_some_iff.mp h).1

theorem weight?_addNode (g : L.Graph) (w : ω) (n : Nat) :
    L.weight? (L.addNode g w).2 n = if n = (L.addNode g w).1 then some w else L.weight? g n := by
  rw [L.weight?_eq, L.weights_addNode, L.index_addNode, L.weight?_eq, List.getElem?_append]
  split
  · rename_i hn
    rw [if_neg (Nat.ne_of_lt hn)]
  · rename_i hn
    split
    · simp [*]
    · rw [List.getElem?_eq_none (by simp; omega), List.getElem?_eq_none (by omega)]

theorem edges_updateEdge (ha : a < (L.weights g).length) (hb : b < (L.weights g).length) :
    L.edges (L.updateEdge g a b) = addOnce (L.edges g) (a, b) := by
  unfold addOnce
  split
  · exact L.edges_updateEdge_of_mem g ha hb ‹_›
  · exact L.edges_updateEdge_of_new g ha hb ‹_›

theorem weight?_updateEdge (ha : a < (L.weights g).length) (hb : b < (L.weights g).length) (n : Nat) :
    L.weight? (L.updateEdge g a b) n = L.weight? g n := by
  rw [L.weight?_eq, L.weights_updateEdge g ha hb, L.weight?_eq]

end DigraphLibrary

/-! ## Lists of edges -/

/-- A directed graph as the list of its nodes and that of its edges. -/
structure EdgeList (ω : Type) where
  nodes : Array ω := #[]
  edges : Array (Nat × Nat) := #[]

/-- Directed graphs as lists of edges. -/
def DigraphLibrary.edgeList (ω : Type) : DigraphLibrary ω where
  Graph := EdgeList ω
  empty := {}
  addNode g w := (g.nodes.size, { g with nodes := g.nodes.push w })
  updateEdge g a b := if (a, b) ∈ g.edges then g else { g with edges := g.edges.push (a, b) }
  weights g := g.nodes.toList
  weight? g n := g.nodes[n]?
  edges g := g.edges.toList
  neighbors g n direction := ((g.edges.toList.filter (direction.near · = n)).map direction.far).reverse
  weights_empty := rfl
  edges_empty := rfl
  index_addNode _ _ := Array.length_toList.symm
  weights_addNode _ _ := Array.toList_push
  edges_addNode _ _ := rfl
  weight?_eq _ _ := Array.getElem?_toList.symm
  weights_updateEdge g _ _ _ _ := by split <;> rfl
  edges_updateEdge_of_new g a b _ _ h := by
    rw [if_neg (mt Array.mem_toList_iff.mpr h), Array.toList_push]
  edges_updateEdge_of_mem g a b _ _ h := by rw [if_pos (Array.mem_toList_iff.mp h)]
  neighbors_eq _ _ _ _ := rfl

end SinkFlow
