import Mathlib.Data.Set.Card
import SinkFlow.Build.Gate
import SinkFlow.Proofs.Fact

/-!
What a gate answers. Statements may come in any order: of the calls for one statement, the first one is let through, and
after as many as it has predecessors the next one counts as the first again.
-/

namespace SinkFlow

namespace Gate

/-! ## One call -/

section

variable {g : Gate} {id k : StatementId}

theorem arrive_first (n : Nat) (h : id ∉ g.counts.keys) : (g.arrive id n).1 = true := by
  have hnone : g.counts.get? id = none := Table.get?_eq_none_iff.mpr h
  unfold arrive
  split
  · rfl
  · simp [hnone]

theorem mem_keys_arrive {n : Nat} (h : k ∈ (g.arrive id n).2.counts.keys) : k ∈ g.counts.keys ∨ k = id := by
  unfold arrive at h
  split at h
  · exact .inl h
  · simp only at h
    split at h
    · rw [Table.keys_erase] at h
      exact .inl (List.mem_filter.mp h).1
    · rw [Table.keys_insert] at h
      split at h
      · exact .inl h
      · simpa using h

end

/-! ## Any calls -/

variable {g : Gate} {p n : StatementId → Nat} {calls : List (StatementId × Nat)}

/-- What a gate answers to calls, each for a statement with so many predecessors. -/
def answers (g : Gate) : List (StatementId × Nat) → List Bool
  | [] => []
  | (s, predecessors) :: calls => (g.arrive s predecessors).1 :: (g.arrive s predecessors).2.answers calls

/-- The gate that calls leave. -/
def after (g : Gate) (calls : List (StatementId × Nat)) : Gate := calls.foldl (fun g c => (g.arrive c.1 c.2).2) g

/-- How many of some calls are for a statement. -/
def visits (calls : List (StatementId × Nat)) (s : StatementId) : Nat := (calls.map Prod.fst).count s

theorem visits_cons (s : StatementId) (predecessors : Nat) (calls : List (StatementId × Nat)) (k : StatementId) :
    visits ((s, predecessors) :: calls) k = visits calls k + if s = k then 1 else 0 := by
  simp [visits, List.count_cons]

theorem length_answers (g : Gate) (calls : List (StatementId × Nat)) : (g.answers calls).length = calls.length := by
  induction calls generalizing g with
  | nil => rfl
  | cons c calls ih => simp [answers, ih]

/-- After `n s` calls for each statement, the gate knows how far each round of as many calls as there are predecessors
has come, if one is under way. -/
def Counts (p n : StatementId → Nat) (g : Gate) : Prop :=
  ∀ s, g.counts.get? s = if 2 ≤ p s ∧ n s % p s ≠ 0 then some (n s % p s) else none

theorem counts_new (p : StatementId → Nat) : Counts p (fun _ => 0) {} := fun s => by
  rw [Nat.zero_mod, if_neg fun h => h.2 rfl]
  rfl

/-- A round that is complete starts over. -/
theorem succ_mod {m period : Nat} (h : 2 ≤ period) :
    (m + 1) % period = if period ≤ m % period + 1 then 0 else m % period + 1 := by
  rw [Nat.add_mod_eq_ite, Nat.mod_eq_of_lt h]
  have hlt : m % period < period := Nat.mod_lt m (by omega)
  split <;> omega

namespace Counts

variable {s : StatementId}

theorem getD (h : Counts p n g) (hs : 2 ≤ p s) : (g.counts.get? s).getD 0 = n s % p s := by
  rw [h s]
  by_cases hround : n s % p s = 0
  · simp [hround]
  · simp [hs, hround]

theorem arrive_fst (h : Counts p n g) (s : StatementId) :
    (g.arrive s (p s)).1 = decide (p s ≤ 1 ∨ n s % p s = 0) := by
  unfold arrive
  split
  · rename_i hs
    simp [hs]
  · rename_i hs
    have hcount := h.getD (s := s) (by omega)
    simp [hcount, hs]

theorem arrive_snd (h : Counts p n g) (s : StatementId) :
    Counts p (fun k => n k + if s = k then 1 else 0) (g.arrive s (p s)).2 := by
  intro k
  unfold arrive
  split
  · rename_i hs
    rw [h k]
    by_cases hk : s = k
    · subst hk
      -- A statement with one predecessor is let through without being counted.
      have hungated : ¬2 ≤ p s := by omega
      rw [if_neg fun h => hungated h.1, if_neg fun h => hungated h.1]
    · simp [hk]
  · rename_i hs
    have hcount := h.getD (s := s) (by omega)
    simp only [hcount]
    by_cases hk : s = k
    · subst hk
      rw [if_pos rfl, succ_mod (by omega)]
      split
      · simp [Table.get?_erase]
      · have hgated : 2 ≤ p s := by omega
        simp [Table.get?_insert, hgated]
    · -- A call for one statement leaves the counts of all others as they are, whether it ends a round or not.
      have hkeep : k ≠ s := fun he => hk he.symm
      simp only [if_neg hk, Nat.add_zero]
      rw [← h k]
      split
      · simp [Table.get?_erase, hkeep]
      · simp [Table.get?_insert, hkeep]

theorem after (hcalls : ∀ c ∈ calls, c.2 = p c.1) (h : Counts p n g) :
    Counts p (fun s => n s + visits calls s) (g.after calls) := by
  induction calls generalizing g n with
  | nil => exact h
  | cons c calls ih =>
      obtain ⟨s, predecessors⟩ := c
      obtain rfl : predecessors = p s := hcalls _ List.mem_cons_self
      have hrest := ih (fun c hc => hcalls c (List.mem_cons_of_mem _ hc)) (h.arrive_snd s)
      have hvisits : (fun k => n k + visits ((s, p s) :: calls) k) =
          fun k => (n k + if s = k then 1 else 0) + visits calls k :=
        funext fun k => by rw [visits_cons, Nat.add_right_comm, Nat.add_assoc]
      rw [hvisits]
      exact hrest

theorem answers (hcalls : ∀ c ∈ calls, c.2 = p c.1) (h : Counts p n g) {i : Nat} {c : StatementId × Nat}
    (hi : calls[i]? = some c) :
    (g.answers calls)[i]? = some (decide (p c.1 ≤ 1 ∨ (n c.1 + visits (calls.take i) c.1) % p c.1 = 0)) := by
  induction calls generalizing g n i with
  | nil => simp at hi
  | cons first calls ih =>
      obtain ⟨s, predecessors⟩ := first
      obtain rfl : predecessors = p s := hcalls _ List.mem_cons_self
      cases i with
      | zero =>
          obtain rfl : (s, p s) = c := by simpa using hi
          simp [Gate.answers, h.arrive_fst, visits]
      | succ i =>
          have hrest := ih (fun c hc => hcalls c (List.mem_cons_of_mem _ hc)) (h.arrive_snd s) hi
          rw [List.take_succ_cons, visits_cons, Gate.answers, List.getElem?_cons_succ, hrest]
          simp only [Nat.add_assoc, Nat.add_comm]

theorem pending (h : Counts p n g) : g.pending = {s | 2 ≤ p s ∧ ¬p s ∣ n s}.ncard := by
  have hkeys : {s | 2 ≤ p s ∧ ¬p s ∣ n s} = g.counts.keys.toFinset := by
    ext s
    rw [Finset.mem_coe, List.mem_toFinset, Table.mem_keys_iff, h s, Set.mem_ofPred_eq, Nat.dvd_iff_mod_eq_zero]
    split
    · rename_i hround
      simpa using hround
    · rename_i hround
      simpa using hround
  have hnodup : g.counts.keys.Nodup := g.counts.nodup
  rw [hkeys, Set.ncard_coe_finset, List.toFinset_card_of_nodup hnodup, Table.keys, List.length_map]
  rfl

end Counts

/-- A gate that is asked any number of times, always with the same number of predecessors for a statement, lets the first
call for a statement through and then every one that comes a multiple of this number later. In the end it counts for those
statements of which a round is incomplete. -/
theorem answers_exact (hcalls : ∀ c ∈ calls, c.2 = p c.1) :
    (answers {} calls).length = calls.length ∧
      (∀ i s predecessors, calls[i]? = some (s, predecessors) →
        let k := visits (calls.take (i + 1)) s
        (answers {} calls)[i]? = some (decide (p s ≤ 1 ∨ (k - 1) % p s = 0))) ∧
      (after {} calls).pending = {s | 2 ≤ p s ∧ ¬p s ∣ visits calls s}.ncard := by
  refine ⟨length_answers {} calls, fun i s predecessors hi => ?_, ?_⟩
  · intro k
    have hk : k = visits (calls.take i) s + 1 := by
      simp [k, visits, List.take_add_one, hi]
    have hanswer := (counts_new p).answers hcalls hi
    rwa [Nat.zero_add, ← Nat.add_sub_cancel (n := visits (calls.take i) s) (m := 1), ← hk] at hanswer
  · have hpending := ((counts_new p).after hcalls).pending
    simpa only [Nat.zero_add] using hpending

/-- Three statements, each with as many predecessors as its number says, in a mixed order. -/
theorem answers_exact_interleaved :
    let calls : List (StatementId × Nat) :=
      [(1, 1), (2, 2), (3, 3), (2, 2), (3, 3), (1, 1), (2, 2), (3, 3), (3, 3)]
    (∀ c ∈ calls, c.2 = c.1.toNat) ∧
      answers {} calls = [true, true, true, false, false, true, true, false, true] ∧
      (answers {} calls)[8]? = some (decide (3 ≤ 1 ∨ (4 - 1) % 3 = 0)) ∧ (after {} calls).pending = 2 ∧
      (after {} calls).pending = {s : StatementId | 2 ≤ s.toNat ∧ ¬s.toNat ∣ visits calls s}.ncard := by
  intro calls
  have hcalls : ∀ c ∈ calls, c.2 = c.1.toNat := by decide
  obtain ⟨_, hanswers, hpending⟩ := answers_exact (p := UInt32.toNat) hcalls
  exact ⟨hcalls, by decide, hanswers 8 3 3 rfl, by decide, hpending⟩

end Gate

end SinkFlow
