import Mathlib.Data.Finset.Card
import Mathlib.Logic.Relation
import SinkFlow.Build.Fields
import SinkFlow.Order

/-!
The walk over a static initializer. It ends by itself, whatever positions the blocks list as their successors, and it
comes to exactly the blocks that can be reached from the entry.
-/

namespace SinkFlow.InitializerBody

variable {b : InitializerBody} {block : InitializerBlock} {out : List InitializerBlock} {queue seen done : List Nat}
  {i j : Nat}

/-! ## Reaching blocks -/

/-- There is a block at a position, and it lists another position as a successor. -/
def Passes (b : InitializerBody) (i j : Nat) : Prop :=
  ∃ block, b.blocks[i]? = some block ∧ j ∈ block.successors.map UInt64.toNat

/-- A block can be reached from the entry. All positions on the way have blocks. -/
def Reaches (b : InitializerBody) (block : InitializerBlock) : Prop :=
  ∃ i, Relation.ReflTransGen b.Passes 0 i ∧ b.blocks[i]? = some block

/-- A literal that a reachable instruction stores into a static field. -/
def Stores (b : InitializerBody) (p : Program) (field : FieldSignature) (l : Literal) : Prop :=
  ∃ block value, b.Reaches block ∧ .putField none value field ∈ block.instructions ∧
    p.literal? b.procedure value = some l

/-! ## Walking -/

/-- The positions that a block adds to those seen before. -/
def fresh (block : InitializerBlock) (seen : List Nat) : List Nat :=
  ((block.successors.map UInt64.toNat).filter (· ∉ seen)).eraseDups

theorem walk_skip (hi : b.blocks[i]? = none) (limit : Nat) :
    b.walk (limit + 1) (i :: queue) seen = b.walk limit queue seen := by
  simp [walk, hi]

theorem walk_visit (hi : b.blocks[i]? = some block) (limit : Nat) :
    b.walk (limit + 1) (i :: queue) seen =
      block :: b.walk limit (queue ++ fresh block seen) (seen ++ fresh block seen) := by
  simp [walk, hi, fresh]

theorem mem_fresh : j ∈ fresh block seen ↔ j ∈ block.successors.map UInt64.toNat ∧ j ∉ seen := by
  simp [fresh]

/-- A walk that goes on until nothing is queued any more, and the blocks that it comes to. -/
inductive Walks (b : InitializerBody) : List Nat → List Nat → List InitializerBlock → Prop where
  | done {seen : List Nat} : Walks b [] seen []
  | skip {i : Nat} {queue seen : List Nat} {out : List InitializerBlock} (hi : b.blocks[i]? = none)
      (h : Walks b queue seen out) : Walks b (i :: queue) seen out
  | visit {i : Nat} {queue seen : List Nat} {block : InitializerBlock} {out : List InitializerBlock}
      (hi : b.blocks[i]? = some block) (h : Walks b (queue ++ fresh block seen) (seen ++ fresh block seen) out) :
      Walks b (i :: queue) seen (block :: out)

/-- The positions that are listed as successors. -/
def targets (b : InitializerBody) : List Nat := b.blocks.flatMap fun block => block.successors.map UInt64.toNat

/-- The number of positions that may still be queued. -/
def unseen (b : InitializerBody) (seen : List Nat) : Nat := (b.targets.toFinset \ seen.toFinset).card

/-- What is queued is not unseen any more. -/
theorem unseen_append_fresh (hi : b.blocks[i]? = some block) (seen : List Nat) :
    b.unseen (seen ++ fresh block seen) + (fresh block seen).length = b.unseen seen := by
  have hsub : (fresh block seen).toFinset ⊆ b.targets.toFinset \ seen.toFinset := by
    intro j hj
    simp only [List.mem_toFinset, mem_fresh] at hj
    simp only [Finset.mem_sdiff, List.mem_toFinset]
    exact ⟨List.mem_flatMap.mpr ⟨block, List.mem_of_getElem? hi, hj.1⟩, hj.2⟩
  have hlength : (fresh block seen).toFinset.card = (fresh block seen).length :=
    List.toFinset_card_of_nodup (nodup_eraseDups _)
  rw [unseen, unseen, List.toFinset_append, ← Finset.sup_eq_union, ← sdiff_sdiff_left, ← hlength]
  exact Finset.card_sdiff_add_card_eq_card hsub

/-- The limit is high enough: it is never what ends a walk. -/
theorem walks_walk {limit : Nat} (h : queue.length + b.unseen seen ≤ limit) :
    b.Walks queue seen (b.walk limit queue seen) := by
  induction limit generalizing queue seen with
  | zero =>
      have hqueue : queue = [] := List.length_eq_zero_iff.mp (by omega)
      subst hqueue
      exact .done
  | succ limit ih =>
      cases queue with
      | nil => exact .done
      | cons i queue =>
          rw [List.length_cons] at h
          cases hi : b.blocks[i]? with
          | none =>
              rw [walk_skip hi]
              exact .skip hi (ih (by omega))
          | some block =>
              have hunseen := unseen_append_fresh hi seen
              rw [walk_visit hi]
              apply Walks.visit hi
              apply ih
              rw [List.length_append]
              omega

theorem length_targets (b : InitializerBody) (n : Nat) :
    b.blocks.foldl (fun n block => n + block.successors.length) n = n + b.targets.length := by
  simp only [targets]
  induction b.blocks generalizing n with
  | nil => rfl
  | cons block blocks ih => simp [ih, Nat.add_assoc]

/-- The walk from the entry ends with an empty queue. -/
theorem walks_reachable (b : InitializerBody) : b.Walks [0] [0] b.reachable := by
  apply walks_walk
  rw [length_targets]
  have hle : b.unseen [0] ≤ b.targets.length :=
    (Finset.card_le_card Finset.sdiff_subset).trans (List.toFinset_card_le b.targets)
  simpa using hle

/-! ## What a walk comes to -/

namespace Walks

/-- A walk only comes to blocks that can be reached from the queue. -/
theorem sound (h : b.Walks queue seen out) (hblock : block ∈ out) :
    ∃ i ∈ queue, ∃ j, Relation.ReflTransGen b.Passes i j ∧ b.blocks[j]? = some block := by
  induction h with
  | done => cases hblock
  | skip _ _ ih =>
      obtain ⟨k, hk, hreach⟩ := ih hblock
      exact ⟨k, List.mem_cons_of_mem _ hk, hreach⟩
  | @visit i queue seen block' out hi _ ih =>
      cases hblock with
      | head => exact ⟨i, List.mem_cons_self, i, .refl, hi⟩
      | tail _ hblock =>
          obtain ⟨k, hk, j, hpath, hj⟩ := ih hblock
          rcases List.mem_append.mp hk with hk | hk
          · exact ⟨k, List.mem_cons_of_mem _ hk, j, hpath, hj⟩
          · have hstep : b.Passes i k := ⟨block', hi, (mem_fresh.mp hk).1⟩
            exact ⟨i, List.mem_cons_self, j, .head hstep hpath, hj⟩

end Walks

/-- Every position that was seen is queued or done, and what follows a position that is done was seen. -/
structure Covers (b : InitializerBody) (queue seen done : List Nat) : Prop where
  listed : ∀ i ∈ seen, i ∈ queue ∨ i ∈ done
  closed : ∀ i ∈ done, ∀ j, b.Passes i j → j ∈ seen

namespace Covers

theorem skip (h : b.Covers (i :: queue) seen done) (hi : b.blocks[i]? = none) : b.Covers queue seen (i :: done) where
  listed k hk := by
    have hk := h.listed k hk
    simp only [List.mem_cons] at hk ⊢
    tauto
  closed k hk j hstep := by
    cases hk with
    | head =>
        obtain ⟨block, hblock, _⟩ := hstep
        rw [hi] at hblock
        cases hblock
    | tail _ hk => exact h.closed k hk j hstep

theorem visit (h : b.Covers (i :: queue) seen done) (hi : b.blocks[i]? = some block) :
    b.Covers (queue ++ fresh block seen) (seen ++ fresh block seen) (i :: done) where
  listed k hk := by
    simp only [List.mem_append, List.mem_cons] at hk ⊢
    rcases hk with hk | hk
    · have hk := h.listed k hk
      simp only [List.mem_cons] at hk
      tauto
    · exact .inl (.inr hk)
  closed k hk j hstep := by
    cases hk with
    | head =>
        obtain ⟨block', hblock, hj⟩ := hstep
        rw [hi] at hblock
        cases hblock
        by_cases hseen : j ∈ seen
        · exact List.mem_append_left _ hseen
        · exact List.mem_append_right _ (mem_fresh.mpr ⟨hj, hseen⟩)
    | tail _ hk => exact List.mem_append_left _ (h.closed k hk j hstep)

end Covers

/-- A list of positions that is closed under successors. The blocks at these positions are in a list of blocks, but for
those that were done before. -/
structure Exhausts (b : InitializerBody) (final done : List Nat) (out : List InitializerBlock) : Prop where
  closed : ∀ i ∈ final, ∀ j, b.Passes i j → j ∈ final
  blocks : ∀ i ∈ final, ∀ block, b.blocks[i]? = some block → i ∈ done ∨ block ∈ out

namespace Exhausts

variable {final : List Nat} {out' : List InitializerBlock}

/-- A position need not have been done before if its block is in the list. -/
theorem of_cons (h : b.Exhausts final (i :: done) out) (hi : ∀ block, b.blocks[i]? = some block → block ∈ out')
    (hout : out ⊆ out') : b.Exhausts final done out' where
  closed := h.closed
  blocks k hk block hblock := by
    rcases h.blocks k hk block hblock with hdone | hmem
    · cases hdone with
      | head => exact .inr (hi block hblock)
      | tail _ hdone => exact .inl hdone
    · exact .inr (hout hmem)

theorem mem_of_path (h : b.Exhausts final done out) (hi : i ∈ final) (hpath : Relation.ReflTransGen b.Passes i j) :
    j ∈ final := by
  induction hpath with
  | refl => exact hi
  | tail _ hstep ih => exact h.closed _ ih _ hstep

end Exhausts

/-- In the end the positions that were seen are closed under successors, and the walk came to all their blocks but
those that were done before. -/
theorem Walks.complete (h : b.Walks queue seen out) (hc : b.Covers queue seen done) :
    ∃ final, seen ⊆ final ∧ b.Exhausts final done out := by
  induction h generalizing done with
  | @done seen =>
      have hdone : ∀ i ∈ seen, i ∈ done := by
        intro i hi
        simpa using hc.listed i hi
      exact ⟨seen, List.Subset.refl _, fun i hi => hc.closed i (hdone i hi), fun i hi _ _ => .inl (hdone i hi)⟩
  | @skip i queue seen out hi _ ih =>
      obtain ⟨final, hseen, hfinal⟩ := ih (hc.skip hi)
      exact ⟨final, hseen, hfinal.of_cons (by simp [hi]) (List.Subset.refl _)⟩
  | @visit i queue seen block out hi _ ih =>
      obtain ⟨final, hseen, hfinal⟩ := ih (hc.visit hi)
      have hout : out ⊆ block :: out := List.subset_cons_self _ _
      exact ⟨final, (List.append_subset.mp hseen).1, hfinal.of_cons (by simp [hi]) hout⟩

theorem mem_reachable : block ∈ b.reachable ↔ b.Reaches block := by
  constructor
  · intro h
    obtain ⟨i, hi, j, hpath, hj⟩ := b.walks_reachable.sound h
    cases List.mem_singleton.mp hi
    exact ⟨j, hpath, hj⟩
  · rintro ⟨i, hpath, hi⟩
    have hstart : b.Covers [0] [0] [] := ⟨fun _ hk => .inl hk, nofun⟩
    obtain ⟨final, hseen, hfinal⟩ := b.walks_reachable.complete hstart
    have hmem : i ∈ final := hfinal.mem_of_path (hseen List.mem_cons_self) hpath
    simpa using hfinal.blocks i hmem block hi

theorem stored?_eq_some_iff {p : Program} {field : FieldSignature} {instruction : Instruction} {l : Literal} :
    b.stored? p field instruction = some l ↔
      ∃ value, instruction = .putField none value field ∧ p.literal? b.procedure value = some l := by
  unfold stored?
  split
  case h_1 value f =>
    by_cases hf : f = field
    · simp [hf]
    · simp [hf]
  case h_2 hne =>
    simp only [reduceCtorEq, false_iff, not_exists, not_and]
    intro value hi _
    exact hne value field hi

theorem mem_literalsOf {p : Program} {field : FieldSignature} {l : Literal} :
    l ∈ b.literalsOf p field ↔ b.Stores p field l := by
  simp only [literalsOf, List.mem_eraseDups, List.mem_filterMap, List.mem_flatMap, mem_reachable, stored?_eq_some_iff,
    Stores]
  constructor
  · rintro ⟨_, ⟨block, hreach, hmem⟩, value, rfl, hl⟩
    exact ⟨block, value, hreach, hmem, hl⟩
  · rintro ⟨block, value, hreach, hmem, hl⟩
    exact ⟨_, ⟨block, hreach, hmem⟩, value, rfl, hl⟩

end SinkFlow.InitializerBody
