import SinkFlow.Propagation.Worklist

/-!
What becomes of the nodes of a worklist. Whatever it is asked to do, its set is that of the nodes that wait, and the nodes
that were taken, followed by those that still wait, are those that were added, in the order in which they were.
-/

namespace SinkFlow

namespace Queue

inductive Request where
  | push (n : NodeId)
  | pop

/-- A queue, the nodes for which it answered that they were added, and the nodes that were taken from it. -/
structure History where
  queue : Queue := {}
  added : List NodeId := []
  taken : List NodeId := []

namespace History

variable {h : History}

def step (h : History) : Request → History
  | .push n =>
    let (new, queue) := h.queue.push n
    { h with queue, added := if new then h.added ++ [n] else h.added }
  | .pop =>
    match h.queue.pop with
    | none => h
    | some (n, queue) => { h with queue, taken := h.taken ++ [n] }

/-- What came of some requests to a new queue. -/
def after (requests : List Request) : History := requests.foldl step {}

/-- No node is lost, and none waits twice. -/
structure Complete (h : History) : Prop where
  sound : h.queue.Sound
  served : h.taken ++ h.queue.pending = h.added

theorem Complete.push (hc : h.Complete) (n : NodeId) : (h.step (.push n)).Complete := by
  refine ⟨hc.sound.push n, ?_⟩
  simp only [step, hc.sound.push_eq]
  by_cases hn : n ∈ h.queue.pending
  · simp [hn, hc.served]
  · simp [hn, ← hc.served]

theorem Complete.pop (hc : h.Complete) : (h.step .pop).Complete := by
  cases hp : h.queue.pop with
  | none =>
      have hsame : h.step .pop = h := by simp only [step, hp]
      rwa [hsame]
  | some next =>
      obtain ⟨n, queue⟩ := next
      have hstep : h.step .pop = { h with queue, taken := h.taken ++ [n] } := by simp only [step, hp]
      rw [hstep]
      refine ⟨hc.sound.pop hp, ?_⟩
      simp [← hc.served, (of_pop hp).1]

theorem complete_after (requests : List Request) : (after requests).Complete := by
  refine List.foldlRecOn requests step ⟨.empty, rfl⟩ fun h hc request _ => ?_
  cases request with
  | push n => exact hc.push n
  | pop => exact hc.pop

/-- After any requests, the set of a worklist is that of the nodes that wait, none of them twice. A node is added just if
it does not wait, there is a next node as long as one waits, and the nodes are taken in the order in which they were
added. -/
theorem after_serves (requests : List Request) :
    let h := after requests
    (∀ n, n ∈ h.queue.members.keys ↔ n ∈ h.queue.pending) ∧ h.queue.pending.Nodup ∧
      (∀ n, (h.queue.push n).1 = true ↔ n ∉ h.queue.pending) ∧ (h.queue.pop = none ↔ h.queue.pending = []) ∧
      h.taken ++ h.queue.pending = h.added := by
  intro h
  obtain ⟨hsound, hserved⟩ := complete_after requests
  refine ⟨hsound.members, hsound.nodup, fun n => ?_, pop_eq_none_iff, hserved⟩
  rw [hsound.push_eq, decide_eq_true_iff]

example :
    let h := after [.push 3, .push 3, .push 1, .pop, .push 3, .pop, .pop]
    h.taken = [3, 1, 3] ∧ h.added = [3, 1, 3] ∧ h.queue.pending = [] := by decide

end History

end Queue

end SinkFlow
