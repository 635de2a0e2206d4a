import SinkFlow.Order
import SinkFlow.Path
import SinkFlow.Table

/-!
Worklists: nodes that wait for their turn, first come first served, each at most once. They are kept twice, in
their order and as a set that says at once whether a node waits.
-/

namespace SinkFlow

/-- Waiting nodes, the next one first, and the set of them. -/
structure Queue where
  pending : List NodeId := []
  members : Table NodeId Unit := ∅
  deriving DecidableEq, Inhabited

namespace Queue

variable {q q' : Queue} {n : NodeId}

/-- Lets a node wait unless it is in the set, and says whether it was added. -/
def push (q : Queue) (n : NodeId) : Bool × Queue :=
  if q.members.contains n then (false, q)
  else (true, { pending := q.pending ++ [n], members := q.members.insertIfNew n () })

/-- Takes the next node, out of the set too. -/
def pop (q : Queue) : Option (NodeId × Queue) :=
  match q.pending with
  | [] => none
  | n :: rest => some (n, { pending := rest, members := q.members.erase n })

/-- The set is that of the nodes that wait, and none waits twice. -/
structure Sound (q : Queue) : Prop where
  members : ∀ n, n ∈ q.members.keys ↔ n ∈ q.pending
  nodup : q.pending.Nodup

theorem pop_eq_none_iff : q.pop = none ↔ q.pending = [] := by
  unfold pop
  split
  · rename_i h
    simp [h]
  · rename_i h
    simp [h]

theorem of_pop (h : q.pop = some (n, q')) : q.pending = n :: q'.pending ∧ q'.members = q.members.erase n := by
  unfold pop at h
  split at h
  · cases h
  · rename_i hp
    cases h
    exact ⟨hp, rfl⟩

namespace Sound

theorem empty : ({} : Queue).Sound := ⟨fun _ => .rfl, .nil⟩

/-- The set answers for the order: a node is added just if it does not wait. -/
theorem push_eq (h : q.Sound) (n : NodeId) :
    q.push n = (decide (n ∉ q.pending),
      if n ∈ q.pending then q else { pending := q.pending ++ [n], members := q.members.insertIfNew n () }) := by
  by_cases hn : n ∈ q.pending
  · simp [Queue.push, Table.contains, h.members, hn]
  · simp [Queue.push, Table.contains, h.members, hn]

theorem pending_push (h : q.Sound) (n : NodeId) : (q.push n).2.pending = addOnce q.pending n := by
  rw [h.push_eq, addOnce]
  split <;> rfl

theorem push (h : q.Sound) (n : NodeId) : (q.push n).2.Sound where
  members k := by
    rw [h.pending_push, mem_addOnce, h.push_eq]
    by_cases hn : n ∈ q.pending
    · have hold : k = n → k ∈ q.pending := fun he => he ▸ hn
      simpa [hn, h.members] using hold
    · have hnew : n ∉ q.members.keys := fun hm => hn ((h.members n).mp hm)
      simp [hn, Table.keys_insertIfNew, hnew, h.members]
  nodup := h.pending_push n ▸ nodup_addOnce h.nodup n

theorem pop (h : q.Sound) (hp : q.pop = some (n, q')) : q'.Sound := by
  obtain ⟨hpending, hmembers⟩ := of_pop hp
  obtain ⟨hn, hnodup⟩ := List.nodup_cons.mp (hpending ▸ h.nodup)
  refine ⟨fun k => ?_, hnodup⟩
  rw [hmembers, Table.keys_erase, List.mem_filter, h.members, hpending, List.mem_cons, decide_eq_true_eq]
  constructor
  · rintro ⟨hk, hne⟩
    exact hk.resolve_left hne
  · exact fun hk => ⟨.inr hk, fun he => hn (he ▸ hk)⟩

end Sound

end Queue

/-- A queue of which the set and the order agree. -/
structure Worklist extends Queue where
  sound : toQueue.Sound
  deriving DecidableEq

namespace Worklist

/-- No node waits. -/
def empty : Worklist := ⟨{}, .empty⟩

instance : Inhabited Worklist := ⟨empty⟩

/-- Whether a node does not wait yet. -/
def accepts (w : Worklist) (n : NodeId) : Bool := (w.toQueue.push n).1

/-- Lets a node wait, unless it does. -/
def push (w : Worklist) (n : NodeId) : Worklist := ⟨(w.toQueue.push n).2, w.sound.push n⟩

/-- Takes the next node. -/
def pop (w : Worklist) : Option (NodeId × Worklist) :=
  match h : w.toQueue.pop with
  | none => none
  | some (n, rest) => some (n, ⟨rest, w.sound.pop h⟩)

/-- The number of waiting nodes. -/
def size (w : Worklist) : Nat := w.pending.length

/-- Whether no node waits. -/
def isEmpty (w : Worklist) : Bool := w.pending.isEmpty

@[simp] theorem pending_push (w : Worklist) (n : NodeId) : (w.push n).pending = addOnce w.pending n :=
  w.sound.pending_push n

theorem pop_eq_none_iff {w : Worklist} : w.pop = none ↔ w.pending = [] := by
  rw [← Queue.pop_eq_none_iff, pop]
  split
  · rename_i h
    simp [h]
  · rename_i h
    simp [h]

theorem pending_of_pop {w w' : Worklist} {n : NodeId} (h : w.pop = some (n, w')) :
    w.pending = n :: w'.pending := by
  unfold pop at h
  split at h
  · cases h
  · rename_i hp
    cases h
    exact (Queue.of_pop hp).1

end Worklist

end SinkFlow
