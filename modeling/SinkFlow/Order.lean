/-! Lists as answers show them: sorted by a "not after" test, or with every element once. -/

namespace SinkFlow

variable {α : Type}

/-- Puts an element in front of the first element that it is not after. -/
def insertBy (le : α → α → Bool) (a : α) : List α → List α
  | [] => [a]
  | b :: bs => if le a b then a :: b :: bs else b :: insertBy le a bs

/-- Sorts by `le`; elements that are not after each other keep their order. -/
def sortBy (le : α → α → Bool) : List α → List α
  | [] => []
  | a :: as => insertBy le a (sortBy le as)

theorem insertBy_perm (le : α → α → Bool) (a : α) (as : List α) :
    (insertBy le a as).Perm (a :: as) := by
  induction as with
  | nil => exact .refl _
  | cons b bs ih =>
      simp only [insertBy]
      split
      · exact .refl _
      · exact (ih.cons b).trans (.swap a b bs)

/-- Sorting keeps every element exactly as often as it occurs. -/
theorem sortBy_perm (le : α → α → Bool) (as : List α) : (sortBy le as).Perm as := by
  induction as with
  | nil => exact .refl _
  | cons a as ih => exact (insertBy_perm le a _).trans (ih.cons a)

@[simp] theorem mem_sortBy {le : α → α → Bool} {a : α} {as : List α} : a ∈ sortBy le as ↔ a ∈ as :=
  (sortBy_perm le as).mem_iff

/-- Adds an element at the end unless it is there. -/
def addOnce [DecidableEq α] (as : List α) (a : α) : List α := if a ∈ as then as else as ++ [a]

@[simp] theorem mem_addOnce [DecidableEq α] {as : List α} {a b : α} : b ∈ addOnce as a ↔ b ∈ as ∨ b = a := by
  unfold addOnce
  split
  · rename_i h
    exact ⟨.inl, fun hb => hb.elim id fun he => he ▸ h⟩
  · simp

/-- A list without repeats stays one. -/
theorem nodup_addOnce [DecidableEq α] {as : List α} (h : as.Nodup) (a : α) : (addOnce as a).Nodup := by
  unfold addOnce
  split
  · exact h
  · rename_i hn
    rw [List.nodup_append]
    refine ⟨h, by simp, ?_⟩
    intro b hb c hc he
    rw [List.mem_singleton] at hc
    exact hn (hc ▸ he ▸ hb)

/-- Elements that are added one by one come in where they are new, at their first place. -/
theorem foldl_addOnce [DecidableEq α] [BEq α] [LawfulBEq α] (as bs : List α) :
    bs.foldl addOnce as = as ++ (bs.filter (· ∉ as)).eraseDups := by
  induction bs generalizing as with
  | nil => simp
  | cons b bs ih =>
      rw [List.foldl_cons, ih]
      by_cases h : b ∈ as
      · simp [addOnce, h]
      · have hlater : bs.filter (· ∉ as ++ [b]) = (bs.filter (· ∉ as)).filter (!· == b) := by
          rw [List.filter_filter]
          refine List.filter_congr fun c _ => ?_
          by_cases hc : c = b <;> simp [hc]
        rw [addOnce, if_neg h, hlater, List.filter_cons_of_pos (by simpa using h), List.eraseDups_cons,
          List.append_assoc]
        rfl

theorem addOnce_eraseDups [DecidableEq α] [BEq α] [LawfulBEq α] (as : List α) (a : α) :
    addOnce as.eraseDups a = (as ++ [a]).eraseDups := by
  rw [List.eraseDups_append, addOnce]
  by_cases ha : a ∈ as <;> simp [ha, List.removeAll, List.eraseDups_cons]

theorem nodup_eraseDups [DecidableEq α] [BEq α] [LawfulBEq α] (as : List α) : as.eraseDups.Nodup := by
  have hnodup : ∀ bs : List α, bs.Nodup → (as.foldl addOnce bs).Nodup := by
    induction as with
    | nil => exact fun bs h => h
    | cons a as ih => exact fun bs h => ih _ (nodup_addOnce h a)
  have hall : as.filter (· ∉ ([] : List α)) = as := List.filter_eq_self.mpr (by simp)
  simpa only [foldl_addOnce, hall, List.nil_append] using hnodup [] List.nodup_nil

end SinkFlow
