import SinkFlow.Proofs.Propagation.Turn

/-!
What joins give back. The branches of a join get only what not all of them know, and learn as much from it as from all
that the join knows. Of the two operands of an assignment, each gets at most what is new to both, and once both have
taken it, the assignment has nothing more for them until it knows more itself.
-/

namespace SinkFlow

namespace Facts

variable {joined joined' : Facts} {branches : List Facts}

/-! ## Branches of a join -/

/-- What all of some facts know: of the first ones, what each of the others knows too. -/
def shared : List Facts → Facts
  | [] => empty
  | first :: rest => rest.foldl common first

theorem has_foldl_common (rest : List Facts) (first : Facts) (i : Item) :
    (rest.foldl common first).has i = (first.has i && rest.all (·.has i)) := by
  induction rest generalizing first with
  | nil => simp
  | cons f rest ih => rw [List.foldl_cons, ih, common, has_filter, List.all_cons, Bool.and_left_comm, Bool.and_assoc]

theorem has_shared (hne : branches ≠ []) (i : Item) : (shared branches).has i = branches.all (·.has i) := by
  cases branches with
  | nil => exact absurd rfl hne
  | cons first rest => rw [shared, has_foldl_common, List.all_cons]

theorem subset_shared_iff (hne : branches ≠ []) : joined ⊆ shared branches ↔ ∀ b ∈ branches, joined ⊆ b := by
  simp only [subset_iff, has_shared hne, List.all_eq_true]
  exact ⟨fun h b hb i hi => h i hi b hb, fun h i hi b hb => h b hb i hi⟩

theorem phiDelta_eq_without (hne : branches ≠ []) (joined : Facts) :
    joined.phiDelta branches = joined.without (shared branches) := by
  simp only [without, has_shared hne]
  cases branches with
  | nil => exact absurd rfl hne
  | cons first rest => rfl

/-- What the branches of a join get back is what the join knows and not all of them do. Each branch learns from it what
it would learn from all that the join knows, and there is nothing in it just if no branch has anything to learn. -/
theorem phiDelta_exact (hne : branches ≠ []) (joined : Facts) :
    let delta := joined.phiDelta branches
    (∀ b ∈ branches, ∀ step, b.merge delta step = b.merge joined step ∧ b.gains delta = b.gains joined) ∧
      (∀ i t, delta.trace? i = some t ↔ joined.trace? i = some t ∧ ¬∀ b ∈ branches, b.has i) ∧
      (delta = joined.without (shared branches) ∧ ∀ i, (shared branches).has i ↔ ∀ b ∈ branches, b.has i) ∧
      (delta.isEmpty ↔ ∀ b ∈ branches, joined ⊆ b) := by
  intro delta
  have hshared : ∀ i, (shared branches).has i ↔ ∀ b ∈ branches, b.has i := by simp [has_shared hne]
  have hdelta : delta = joined.without (shared branches) := phiDelta_eq_without hne joined
  refine ⟨fun b hb step => ?_, fun i t => ?_, ⟨hdelta, hshared⟩, ?_⟩
  · -- What is left out is known to all branches, and so to this one.
    have hknown : ∀ i, joined.has i → (!(shared branches).has i) = false → b.has i := by
      intro i _ hi
      rw [Bool.not_eq_false'] at hi
      exact (hshared i).mp hi b hb
    rw [hdelta]
    exact ⟨merge_filter hknown step, gains_filter hknown⟩
  · rw [hdelta, without, trace?_filter, ← hshared]
    cases (shared branches).has i <;> simp
  · rw [hdelta, isEmpty_without_iff, subset_shared_iff hne]

/-- Nothing but some texts is known, each with its path. -/
def ofTexts (texts : List (String × Path)) : Facts := texts.foldl (fun f e => f.add (.text e.1) (some e.2)) empty

/-- Three texts that came over different statements. -/
def mixedTexts : Facts := ofTexts [("A", [⟨0, 1⟩]), ("B", [⟨0, 2⟩]), ("C", [⟨0, 3⟩])]

theorem mixedTexts_exact :
    let branches := [ofTexts [("A", []), ("C", [])], ofTexts [("B", []), ("C", [])]]
    let delta := mixedTexts.phiDelta branches
    branches ≠ [] ∧ delta.trace? (.text "A") = some (some [⟨0, 1⟩]) ∧ delta.has (.text "C") = false ∧
      ∀ b ∈ branches, b.merge delta [⟨0, 4⟩] = b.merge mixedTexts [⟨0, 4⟩] := by
  intro branches delta
  have hne : branches ≠ [] := List.cons_ne_nil _ _
  obtain ⟨hmerge, htrace, _, _⟩ := phiDelta_exact hne mixedTexts
  refine ⟨hne, (htrace _ _).mpr ⟨?_, ?_⟩, ?_, fun b hb => (hmerge b hb _).1⟩
  all_goals decide +kernel

/-! ## Operands of an assignment -/

/-- What an operand of an assignment is given of one facet, by what it knows itself and what the other one knows. -/
structure Share (joined own other given : Facts) (facet : Facet) : Prop where
  /-- All of it comes from the result of the assignment, with the traces there. -/
  known : ∀ i t, i.facet = facet → given.trace? i = some t → joined.trace? i = some t
  /-- Neither operand knows any of it. -/
  new : ∀ i, i.facet = facet → given.has i → own.has i = false ∧ other.has i = false
  /-- There is nothing for an operand that knows something of the facet. -/
  closed : own.lacks facet = false → given.lacks facet
  /-- If neither operand does, there is all of it. -/
  whole : own.lacks facet → other.lacks facet → given.only facet = joined.only facet
  /-- If only the other one does, both have all of it together. -/
  covers : own.lacks facet → ∀ i, i.facet = facet → joined.has i → given.has i ∨ other.has i

theorem share_left (joined left right : Facts) (facet : Facet) :
    Share joined left right (joined.assignJoin left right).1 facet where
  known i t _ ht := trace?_of_assignJoin ht
  new i _ hi := by
    simp only [has_assignJoin, Bool.and_eq_true, Bool.not_eq_true'] at hi
    exact ⟨lacks_iff.mp hi.1.1 i rfl, hi.1.2⟩
  closed hl := by
    refine lacks_iff.mpr fun i hf => ?_
    subst hf
    simp [has_assignJoin, hl]
  whole hl hr := by
    rw [assignJoin_eq, only_merge_empty, only, only, filter_filter]
    refine congrArg (fun q => joined.filter q) (funext fun i => ?_)
    by_cases hf : i.facet = facet
    · simp [hf, hl, lacks_iff.mp hr i hf]
    · simp [hf]
  covers hl i hf hi := by
    subst hf
    cases hr : right.has i with
    | true => exact .inr rfl
    | false => exact .inl (by simp [has_assignJoin, hl, hr, hi])

/-- An assignment has nothing for an operand: what it would take because it knows nothing of the facet, the other one
has. -/
def Settled (joined own other : Facts) : Prop := ∀ i, joined.has i → own.lacks i.facet → other.has i

theorem Settled.mono {own own' other other' : Facts} (h : Settled joined own other) (hj : joined' ⊆ joined)
    (hown : own ⊆ own') (hother : other ⊆ other') : Settled joined' own' other' :=
  fun i hi hl => hother i (h i (hj i hi) (lacks_mono hown hl))

theorem Settled.isEmpty {own other : Facts} (h : Settled joined own other) :
    (joined.assignJoin own other).1.isEmpty := by
  refine isEmpty_iff.mpr fun i => ?_
  rw [has_assignJoin]
  cases hi : joined.has i with
  | false => simp
  | true =>
      cases hl : own.lacks i.facet with
      | false => simp
      | true => simp [h i hi hl]

/-- An operand that still knows nothing of a facet after it took its share was given nothing, since the other one knew
all of it. -/
theorem settled_assignJoin (joined own other : Facts) (step : Path) :
    Settled joined (own.merge (joined.assignJoin own other).1 step) other := by
  intro i hi hl
  have hnone := lacks_iff.mp hl i rfl
  rw [has_merge, Bool.or_eq_false_iff] at hnone
  have hown : own.lacks i.facet := lacks_mono (subset_merge own _ step) hl
  rcases (share_left joined own other i.facet).covers hown i rfl hi with hgiven | hother
  · simp [hnone.2] at hgiven
  · exact hother

end Facts

namespace Propagation

open FlowGraph

variable {s s' : Propagation} {joined joined' facts : Facts} {m : NodeId} {l r : Constraint} {step : Path}

theorem handBack_eq_self (h : s.graph.isOpen m → facts.isEmpty) : s.handBack m facts step = s := by
  unfold handBack
  split
  · rfl
  · rename_i he
    have hclosed : ¬s.graph.isOpen m := fun ho => he (h ho)
    simp [absorb, hclosed]

/-- An assignment that has nothing for an operand will have nothing for it in a graph that has grown. -/
theorem isEmpty_assignJoin_of_grows {g g' : FlowGraph} (h : Grows g g') (hj : joined' ⊆ joined) {m n : NodeId}
    (hsettled : g.isOpen m → Facts.Settled joined (g.factsAt m) (g.factsAt n)) (ho : g'.isOpen m) :
    (joined'.assignJoin (g'.factsAt m) (g'.factsAt n)).1.isEmpty := by
  rw [h.shape.isOpen] at ho
  exact ((hsettled ho).mono hj (h.facts m) (h.facts n)).isEmpty

/-- Once an assignment was handed back to its two operands it has nothing more for them, however the graph has grown
since. -/
theorem backwardAssign_again (h : Grows (backwardAssign joined s [l, r]).graph s'.graph) (hj : joined' ⊆ joined) :
    backwardAssign joined' s' [l, r] = s' := by
  have hleft : s'.graph.isOpen l.source →
      (joined'.assignJoin (s'.graph.factsAt l.source) (s'.graph.factsAt r.source)).1.isEmpty :=
    isEmpty_assignJoin_of_grows h hj fun ho _ hi => (backwardAssign_pair joined s l r hi).1 ho
  have hright : s'.graph.isOpen r.source →
      (joined'.assignJoin (s'.graph.factsAt l.source) (s'.graph.factsAt r.source)).2.isEmpty := by
    rw [Facts.assignJoin_snd]
    exact isEmpty_assignJoin_of_grows h hj fun ho _ hi => (backwardAssign_pair joined s l r hi).2 ho
  simp only [backwardAssign, handBack_eq_self hleft, handBack_eq_self hright]

end Propagation

namespace Facts

/-- Each operand of an assignment gets its share, facet by facet, and that settles the matter: as long as the result
knows nothing more, both get nothing again, whatever else they have learned by then. -/
theorem assignJoin_settles (joined left right : Facts) :
    let shares := joined.assignJoin left right
    (∀ facet, Share joined left right shares.1 facet ∧ Share joined right left shares.2 facet) ∧
      (∀ joined' left' right' stepLeft stepRight, joined' ⊆ joined →
        left.merge shares.1 stepLeft ⊆ left' → right.merge shares.2 stepRight ⊆ right' →
          let again := joined'.assignJoin left' right'
          ∀ step, left'.merge again.1 step = left' ∧ left'.gains again.1 = false ∧
            right'.merge again.2 step = right' ∧ right'.gains again.2 = false) ∧
      ∀ s s' l r, FlowGraph.Grows (Propagation.backwardAssign joined s [l, r]).graph s'.graph →
        ∀ joined' ⊆ joined, Propagation.backwardAssign joined' s' [l, r] = s' := by
  intro shares
  refine ⟨fun facet => ⟨share_left joined left right facet, ?_⟩, ?_,
    fun s s' l r h joined' hj => Propagation.backwardAssign_again h hj⟩
  · rw [assignJoin_snd]
    exact share_left joined right left facet
  intro joined' left' right' stepLeft stepRight hj hl hr again step
  have hsnd : again.2 = (joined'.assignJoin right' left').1 := assignJoin_snd joined' left' right'
  have hr : right.merge (joined.assignJoin right left).1 stepRight ⊆ right' := by
    rwa [← assignJoin_snd]
  have hright' : right ⊆ right' := fun i hi => hr i (subset_merge right _ _ i hi)
  have hleft' : left ⊆ left' := fun i hi => hl i (subset_merge left _ _ i hi)
  have hleft : again.1.isEmpty := ((settled_assignJoin joined left right stepLeft).mono hj hl hright').isEmpty
  have hright : again.2.isEmpty := by
    rw [hsnd]
    exact ((settled_assignJoin joined right left stepRight).mono hj hr hleft').isEmpty
  exact ⟨merge_of_isEmpty hleft left' step, gains_of_isEmpty hleft left', merge_of_isEmpty hright right' step,
    gains_of_isEmpty hright right'⟩

theorem mixedTexts_settles :
    let right := ofTexts [("A", [])]
    let shares := mixedTexts.assignJoin empty right
    let left' := empty.merge shares.1 [⟨0, 4⟩]
    let right' := right.merge shares.2 [⟨0, 5⟩]
    left'.trace? (.text "B") = some (some [⟨0, 2⟩, ⟨0, 4⟩]) ∧ left'.has (.text "A") = false ∧ right' = right ∧
      left'.merge (mixedTexts.assignJoin left' right').1 [⟨0, 4⟩] = left' := by
  intro right shares left' right'
  obtain ⟨_, hagain, _⟩ := assignJoin_settles mixedTexts empty right
  have hfirst := hagain mixedTexts left' right' _ _ (fun _ h => h) (fun _ h => h) (fun _ h => h) [⟨0, 4⟩]
  refine ⟨?_, ?_, ?_, hfirst.1⟩
  all_goals decide +kernel

end Facts

end SinkFlow
