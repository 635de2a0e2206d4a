import SinkFlow.Proofs.Fact

/-!
What facts learn from others. Items are learned facet by facet, in one of two ways that differ in how they notice what is
new; both come down to receiving entries (`learnFacet_eq`, `learn_eq`). An item that is known keeps its trace, any other
one comes with the trace that the others have, extended by the step, and the answer says exactly whether there was one.
-/

namespace SinkFlow

namespace Facts

variable {f other : Facts} {p : Item → Bool} {es : List (Item × Trace)}

/-! ## Entries -/

theorem trace?_addAll (f : Facts) (es : List (Item × Trace)) (i : Item) :
    (f.addAll es).trace? i = (f.trace? i).or (es.lookup i) := by
  have h := trace?_foldl_add id es f i
  rwa [Option.map_id] at h

theorem addAll_append (f : Facts) (es es' : List (Item × Trace)) : f.addAll (es ++ es') = (f.addAll es).addAll es' :=
  List.foldl_append

theorem addAll_cons (f : Facts) (e : Item × Trace) (es : List (Item × Trace)) :
    f.addAll (e :: es) = (f.add e.1 e.2).addAll es := rfl

theorem has_addAll (f : Facts) (es : List (Item × Trace)) (i : Item) :
    (f.addAll es).has i = (f.has i || es.any (·.1 = i)) := has_foldl_add id es f i

theorem add_of_has {i : Item} (h : f.has i) (t : Trace) : f.add i t = f := by
  have hk : i ∈ f.items.keys := mem_keys_iff_has.mpr h
  simp [add, Table.insertIfNew, hk]

/-- Adding items passes over those that are known, so these may be left out beforehand. -/
theorem addAll_filter (h : ∀ e ∈ es, p e.1 = false → f.has e.1) : f.addAll (es.filter fun e => p e.1) = f.addAll es := by
  induction es generalizing f with
  | nil => rfl
  | cons e es ih =>
      have hrest : ∀ e' ∈ es, p e'.1 = false → f.has e'.1 := fun e' he' => h e' (List.mem_cons_of_mem e he')
      cases hp : p e.1 with
      | true =>
          simp only [List.filter_cons, hp, if_true, addAll_cons]
          exact ih fun e' he' hp' => by simp [hrest e' he' hp']
      | false =>
          have hknown := h e List.mem_cons_self hp
          simp only [List.filter_cons, hp, addAll_cons, add_of_has hknown]
          exact ih hrest

/-- What some entries bring: whether there is a new item among them, and the facts with all of them. -/
def receive (f : Facts) (es : List (Item × Trace)) : Bool × Facts := (es.any fun e => !f.has e.1, f.addAll es)

theorem addAll_of_known (h : ∀ e ∈ es, f.has e.1) : f.addAll es = f := by
  rw [← addAll_filter (p := fun _ => false) fun e he _ => h e he]
  have hnone : es.filter (fun _ => false) = [] := by simp
  rw [hnone]
  rfl

theorem receive_of_known (h : ∀ e ∈ es, f.has e.1) : f.receive es = (false, f) :=
  Prod.ext (by simpa [receive] using h) (addAll_of_known h)

/-- Entries bring something new just if the facts have an item more than before. -/
theorem receive_fst_iff : (f.receive es).1 = true ↔ ∃ i, (f.receive es).2.has i ∧ f.has i = false := by
  simp only [receive, List.any_eq_true, Bool.not_eq_true', has_addAll, Bool.or_eq_true, decide_eq_true_eq]
  constructor
  · rintro ⟨e, he, hnew⟩
    exact ⟨e.1, .inr ⟨e, he, rfl⟩, hnew⟩
  · rintro ⟨i, hi | ⟨e, he, rfl⟩, hnew⟩
    · simp [hnew] at hi
    · exact ⟨e, he, hnew⟩

/-- Of two parts, the second one brings something new just if the first one has not brought it. -/
theorem receive_append (f : Facts) (es es' : List (Item × Trace)) :
    f.receive (es ++ es') = ((f.receive es).1 || ((f.receive es).2.receive es').1, ((f.receive es).2.receive es').2) := by
  refine Prod.ext ?_ (addAll_append f es es')
  rw [Bool.eq_iff_iff]
  simp only [receive, List.any_append, Bool.or_eq_true, List.any_eq_true, Bool.not_eq_true', has_addAll,
    Bool.or_eq_false_iff]
  constructor
  · rintro (h | ⟨e, he, hnew⟩)
    · exact .inl h
    · -- An entry whose item is in the first part too was new there already.
      cases hfirst : es.any (·.1 = e.1) with
      | false => exact .inr ⟨e, he, hnew, hfirst⟩
      | true =>
          obtain ⟨e', he', hsame⟩ := List.any_eq_true.mp hfirst
          exact .inl ⟨e', he', by rwa [of_decide_eq_true hsame]⟩
  · rintro (h | ⟨e, he, hnew, _⟩)
    · exact .inl h
    · exact .inr ⟨e, he, hnew⟩

/-- Parts that are received one after another are received as one. -/
theorem foldl_receive {α : Type} (part : α → List (Item × Trace)) (as : List α) (acc : Bool × Facts) :
    as.foldl (fun acc a => (acc.1 || (acc.2.receive (part a)).1, (acc.2.receive (part a)).2)) acc =
      (acc.1 || (acc.2.receive (as.flatMap part)).1, (acc.2.receive (as.flatMap part)).2) := by
  induction as generalizing acc with
  | nil => simp [receive, addAll]
  | cons a as ih => rw [List.foldl_cons, ih, List.flatMap_cons, receive_append, Bool.or_assoc]

/-! ## Learning -/

theorem learnEach_eq (f : Facts) (excluded : Item → Bool) (es : List (Item × Trace)) :
    f.learnEach excluded es = f.receive (es.filter fun e => !excluded e.1) := by
  -- A single entry is a part by itself, or none at all if it is excluded.
  have hstep : (fun (acc : Bool × Facts) (e : Item × Trace) =>
      if acc.2.has e.1 || excluded e.1 then acc else (true, acc.2.add e.1 e.2)) =
        fun acc e => (acc.1 || (acc.2.receive ([e].filter fun e => !excluded e.1)).1,
          (acc.2.receive ([e].filter fun e => !excluded e.1)).2) := by
    funext acc e
    cases hex : excluded e.1 with
    | true => simp [hex, receive, addAll]
    | false =>
        cases hknown : acc.2.has e.1 with
        | true => simp [hex, receive, addAll, hknown, add_of_has]
        | false => simp [hex, receive, addAll, hknown]
  have hparts : es.flatMap (fun e => [e].filter fun e => !excluded e.1) = es.filter fun e => !excluded e.1 := by
    rw [← List.filter_flatMap, List.flatMap_singleton']
  rw [learnEach, hstep, foldl_receive, hparts, Bool.false_or]

theorem exists_keys_addAll (f : Facts) (es : List (Item × Trace)) :
    ∃ new, (f.addAll es).items.keys = f.items.keys ++ new := by
  induction es generalizing f with
  | nil => exact ⟨[], (List.append_nil _).symm⟩
  | cons e es ih =>
      obtain ⟨new, hnew⟩ := ih (f.add e.1 e.2)
      rw [addAll_cons, hnew, add, Table.keys_insertIfNew]
      split
      · exact ⟨new, rfl⟩
      · exact ⟨e.1 :: new, by simp⟩

/-- A facet never becomes smaller, and it becomes larger just by a new item. -/
theorem facetSize_addAll (f : Facts) (es : List (Item × Trace)) (facet : Facet) :
    f.facetSize facet ≤ (f.addAll es).facetSize facet ∧
      (f.facetSize facet < (f.addAll es).facetSize facet ↔
        ∃ i, i.facet = facet ∧ (f.addAll es).has i ∧ f.has i = false) := by
  obtain ⟨new, hnew⟩ := exists_keys_addAll f es
  have hsize : (f.addAll es).facetSize facet = f.facetSize facet + new.countP (·.facet = facet) := by
    rw [facetSize, hnew, List.countP_append]
    rfl
  have hmem : ∀ i, i ∈ new ↔ (f.addAll es).has i ∧ f.has i = false := by
    have hnodup : (f.items.keys ++ new).Nodup := hnew ▸ (f.addAll es).items.nodup
    have hdisjoint := (List.nodup_append.mp hnodup).2.2
    intro i
    rw [← mem_keys_iff_has, hnew, List.mem_append, ← Bool.not_eq_true, ← mem_keys_iff_has]
    exact ⟨fun hi => ⟨.inr hi, fun hold => hdisjoint i hold i hi rfl⟩, fun hi => hi.1.resolve_left hi.2⟩
  refine ⟨by omega, ?_⟩
  rw [hsize, Nat.lt_add_right_iff_pos, List.countP_pos_iff]
  refine exists_congr fun i => ?_
  rw [hmem, decide_eq_true_eq, and_comm]

theorem learnAll_eq {facet : Facet} (h : ∀ e ∈ es, e.1.facet = facet) (f : Facts) (excluded : Item → Bool) :
    f.learnAll facet excluded es = f.receive (es.filter fun e => !excluded e.1) := by
  -- Only the size of this facet is compared, so all that is new has to be counted in it.
  obtain ⟨hle, hlt⟩ := facetSize_addAll f (es.filter fun e => !excluded e.1) facet
  have hfacet : ∀ i, (f.addAll (es.filter fun e => !excluded e.1)).has i → f.has i = false → i.facet = facet := by
    intro i hi hnew
    rw [has_addAll, hnew, Bool.false_or, List.any_eq_true] at hi
    obtain ⟨e, he, hsame⟩ := hi
    rw [← of_decide_eq_true hsame]
    exact h e (List.mem_filter.mp he).1
  refine Prod.ext ?_ rfl
  rw [Bool.eq_iff_iff, receive_fst_iff, learnAll, bne_iff_ne]
  constructor
  · intro hne
    obtain ⟨i, _, hi⟩ := hlt.mp (Nat.lt_of_le_of_ne hle hne.symm)
    exact ⟨i, hi⟩
  · rintro ⟨i, hi⟩
    exact Nat.ne_of_gt (hlt.mpr ⟨i, hfacet i hi.1 hi.2, hi⟩)

/-- The entries that learning one facet takes. -/
def brought (other : Facts) (facet : Facet) (step : Path) (exclude : Option Facts) : List (Item × Trace) :=
  (other.offered facet (exclude.getD empty)).items.entries.map fun e => (e.1, e.2.extend step)

/-- The entries that learning all facets takes. -/
def broughtAll (other : Facts) (step : Path) : List (Item × Trace) :=
  Facet.all.flatMap fun facet => other.brought facet step none

theorem has_getD_empty (exclude : Option Facts) (i : Item) : (exclude.getD empty).has i = exclude.any (·.has i) := by
  cases exclude with
  | none => rfl
  | some e => rfl

theorem brought_eq (other : Facts) (facet : Facet) (step : Path) (exclude : Option Facts) :
    other.brought facet step exclude = (other.entriesOf facet step).filter fun e => !exclude.any (·.has e.1) := by
  rw [entriesOf, List.filter_map]
  simp only [brought, offered, without, has_getD_empty]
  rfl

theorem facet_of_mem_entriesOf {facet : Facet} {step : Path} {e : Item × Trace} (h : e ∈ other.entriesOf facet step) :
    e.1.facet = facet := by
  obtain ⟨e', he', rfl⟩ := List.mem_map.mp h
  exact of_decide_eq_true (List.mem_filter.mp he').2

theorem learnFacet_eq (f other : Facts) (facet : Facet) (step : Path) (exclude : Option Facts) :
    f.learnFacet other facet step exclude = f.receive (other.brought facet step exclude) := by
  have hfacet : ∀ e ∈ other.entriesOf facet step, e.1.facet = facet := fun e => facet_of_mem_entriesOf
  let excluded (i : Item) : Bool := exclude.any (·.has i)
  rw [brought_eq]
  cases facet with
  | constants => exact learnAll_eq hfacet f excluded
  | texts => exact learnEach_eq f excluded (other.entriesOf .texts step)
  | inputFields => exact learnEach_eq f excluded (other.entriesOf .inputFields step)
  | outputFields => exact learnEach_eq f excluded (other.entriesOf .outputFields step)

theorem learn_eq (f other : Facts) (step : Path) : f.learn other step = f.receive (other.broughtAll step) := by
  simp only [learn, learnFacet_eq]
  rw [foldl_receive, Bool.false_or, broughtAll]

theorem trace?_brought (f other : Facts) (facet : Facet) (step : Path) (exclude : Option Facts) (i : Item) :
    (f.addAll (other.brought facet step exclude)).trace? i =
      (f.trace? i).or
        (if i.facet = facet ∧ !exclude.any (·.has i) then (other.trace? i).map (·.extend step) else none) := by
  have htaken : (other.offered facet (exclude.getD empty)).trace? i =
      if i.facet = facet ∧ !exclude.any (·.has i) then other.trace? i else none := by
    rw [offered, without, trace?_filter, has_getD_empty, only, trace?_filter]
    by_cases hf : i.facet = facet <;> simp [hf]
  have htrace := trace?_foldl_add (·.extend step) (other.offered facet (exclude.getD empty)).items.entries f i
  rw [brought, addAll, List.foldl_map, htrace, ← Table.get?, ← trace?, htaken]
  split <;> rfl

/-- Merging keeps the traces of known items and extends those of the others by the step. -/
theorem trace?_merge (f other : Facts) (step : Path) (i : Item) :
    (f.merge other step).trace? i = (f.trace? i).or ((other.trace? i).map (·.extend step)) := by
  simp only [merge, learn_eq, receive, broughtAll, Facet.all, List.flatMap_cons, List.flatMap_nil, List.append_nil,
    addAll_append, trace?_brought, Option.any_none, Bool.not_false, and_true]
  cases i <;> simp [Item.facet]

@[simp] theorem has_merge (f other : Facts) (step : Path) (i : Item) :
    (f.merge other step).has i = (f.has i || other.has i) := by
  simp [has_eq_isSome, trace?_merge]

theorem subset_merge (f other : Facts) (step : Path) : f ⊆ f.merge other step := fun i hi => by simp [hi]

/-- What learning answers does not depend on the step. -/
@[simp] theorem learn_fst (f other : Facts) (step : Path) : (f.learn other step).1 = f.gains other := by
  have hmerge : f.merge other step = (f.receive (other.broughtAll step)).2 := by rw [merge, learn_eq]
  rw [Bool.eq_iff_iff, learn_eq, receive_fst_iff, ← hmerge, gains_iff]
  refine exists_congr fun i => ?_
  rw [has_merge, Bool.or_eq_true]
  exact ⟨fun ⟨hi, hnew⟩ => ⟨hi.resolve_left (by simp [hnew]), hnew⟩, fun ⟨hi, hnew⟩ => ⟨.inr hi, hnew⟩⟩

/-! ## Merging what is known already -/

theorem has_of_mem_brought {facet : Facet} {step : Path} {exclude : Option Facts} {e : Item × Trace}
    (h : e ∈ other.brought facet step exclude) : other.has e.1 := by
  obtain ⟨e', he', rfl⟩ := List.mem_map.mp h
  have hoffered := has_of_trace? (mem_entries_iff.mp he')
  simp only [offered, without, only, has_filter, Bool.and_eq_true] at hoffered
  exact hoffered.2.2

theorem has_of_mem_broughtAll {step : Path} {e : Item × Trace} (h : e ∈ other.broughtAll step) : other.has e.1 := by
  obtain ⟨facet, _, hfacet⟩ := List.mem_flatMap.mp h
  exact has_of_mem_brought hfacet

theorem brought_filter (p : Item → Bool) (other : Facts) (facet : Facet) (step : Path) (exclude : Option Facts) :
    (other.filter p).brought facet step exclude = (other.brought facet step exclude).filter fun e => p e.1 := by
  have hoffered : (other.filter p).offered facet (exclude.getD empty) =
      (other.offered facet (exclude.getD empty)).filter p := by
    simp only [offered, without, only, filter_filter, Bool.and_comm (p _), Bool.and_assoc]
  rw [brought, brought, hoffered, List.filter_map]
  rfl

/-- Leaving out of a merge what is known already changes neither the result nor whether there is something new. -/
theorem merge_filter (h : ∀ i, other.has i → p i = false → f.has i) (step : Path) :
    f.merge (other.filter p) step = f.merge other step := by
  simp only [merge, learn_eq, receive, broughtAll, brought_filter, ← List.filter_flatMap]
  exact addAll_filter fun e he hp => h e.1 (has_of_mem_broughtAll he) hp

theorem gains_filter (h : ∀ i, other.has i → p i = false → f.has i) :
    f.gains (other.filter p) = f.gains other := by
  rw [Bool.eq_iff_iff, gains_iff, gains_iff]
  constructor
  · rintro ⟨i, hi, hnew⟩
    rw [has_filter, Bool.and_eq_true] at hi
    exact ⟨i, hi.2, hnew⟩
  · rintro ⟨i, hi, hnew⟩
    refine ⟨i, ?_, hnew⟩
    cases hp : p i with
    | true => simp [hp, hi]
    | false => simp [h i hi hp] at hnew

theorem merge_of_isEmpty (h : other.isEmpty) (f : Facts) (step : Path) : f.merge other step = f := by
  rw [merge, learn_eq]
  refine addAll_of_known fun e he => ?_
  have hhas := has_of_mem_broughtAll he
  rw [isEmpty_iff.mp h] at hhas
  cases hhas

theorem gains_of_isEmpty (h : other.isEmpty) (f : Facts) : f.gains other = false := by
  have hentries : other.items.entries = [] := List.isEmpty_iff.mp h
  simp [gains, Table.keys, hentries]

/-! ## Facts put together facet by facet -/

theorem entries_add {i : Item} (h : f.has i = false) (t : Trace) :
    (f.add i t).items.entries = f.items.entries ++ [(i, t)] := by
  have hkey : i ∉ f.items.keys := by simp [mem_keys_iff_has, h]
  simp [add, Table.insertIfNew, hkey]

theorem entries_addAll (hnew : ∀ e ∈ es, f.has e.1 = false) (hnodup : (es.map Prod.fst).Nodup) :
    (f.addAll es).items.entries = f.items.entries ++ es := by
  induction es generalizing f with
  | nil => simp [addAll]
  | cons e es ih =>
      obtain ⟨he, hes⟩ := List.nodup_cons.mp hnodup
      have hrest : ∀ e' ∈ es, (f.add e.1 e.2).has e'.1 = false := by
        intro e' he'
        have hne : e'.1 ≠ e.1 := fun heq => he (heq ▸ List.mem_map_of_mem he')
        simp [hnew e' (List.mem_cons_of_mem _ he'), hne]
      rw [addAll_cons, ih hrest hes, entries_add (hnew e List.mem_cons_self), List.append_assoc, List.singleton_append]

theorem eq_of_entries {f g : Facts} (h : f.items.entries = g.items.entries) : f = g := by
  obtain ⟨⟨_, _⟩⟩ := f
  obtain ⟨⟨_, _⟩⟩ := g
  cases h
  rfl

/-- Adding all entries of some facts to nothing gives these facts. -/
theorem addAll_entries (f : Facts) : empty.addAll f.items.entries = f :=
  eq_of_entries (entries_addAll (fun _ _ => rfl) f.items.nodup)

theorem only_add (f : Facts) (i : Item) (t : Trace) (facet : Facet) :
    (f.add i t).only facet = if i.facet = facet then (f.only facet).add i t else f.only facet := by
  have hhas : i.facet = facet → (f.only facet).has i = f.has i := fun hf => by simp [only, hf]
  cases hi : f.has i with
  | true =>
      rw [add_of_has hi]
      split
      · rw [add_of_has ((hhas ‹_›).trans hi)]
      · rfl
  | false =>
      apply eq_of_entries
      have honly : ((f.add i t).only facet).items.entries =
          (f.items.entries ++ [(i, t)]).filter (·.1.facet = facet) := by
        rw [← entries_add hi]
        rfl
      rw [honly, List.filter_append]
      split
      · rw [entries_add ((hhas ‹_›).trans hi)]
        simp [*, only, filter, Table.filter]
      · simp [*, only, filter, Table.filter]

theorem only_addAll (f : Facts) (es : List (Item × Trace)) (facet : Facet) :
    (f.addAll es).only facet = (f.only facet).addAll (es.filter (·.1.facet = facet)) := by
  induction es generalizing f with
  | nil => rfl
  | cons e es ih =>
      rw [addAll_cons, ih, only_add]
      by_cases he : e.1.facet = facet <;> simp [he, addAll_cons]

theorem facet_of_mem_brought {facet : Facet} {step : Path} {exclude : Option Facts} {e : Item × Trace}
    (h : e ∈ other.brought facet step exclude) : e.1.facet = facet := by
  rw [brought_eq] at h
  exact facet_of_mem_entriesOf (List.mem_filter.mp h).1

theorem brought_nil (f : Facts) (facet : Facet) : f.brought facet [] none = (f.only facet).items.entries := by
  simp [brought_eq, entriesOf]

/-- Merging some facts into nothing sorts them by facet. -/
theorem only_merge_empty (f : Facts) (facet : Facet) : (empty.merge f []).only facet = f.only facet := by
  have hfacet : ∀ facet', (f.brought facet' [] none).filter (·.1.facet = facet) =
      if facet' = facet then f.brought facet' [] none else [] := by
    intro facet'
    split
    · exact List.filter_eq_self.mpr fun e he => decide_eq_true (by rwa [facet_of_mem_brought he])
    · exact List.filter_eq_nil_iff.mpr fun e he => by simpa [facet_of_mem_brought he]
  have hall : (f.broughtAll []).filter (·.1.facet = facet) = f.brought facet [] none := by
    simp only [broughtAll, Facet.all, List.flatMap_cons, List.flatMap_nil, List.filter_append, hfacet]
    cases facet <;> simp
  rw [merge, learn_eq, receive, only_addAll, hall, brought_nil]
  exact addAll_entries _

/-! ## Shares of an assignment -/

theorem brought_share (joined own other : Facts) (facet : Facet) :
    (joined.filter fun i => own.lacks i.facet && !other.has i).brought facet [] none =
      if own.lacks facet then joined.brought facet [] (if other.lacks facet then none else some other) else [] := by
  rw [brought_filter]
  cases hown : own.lacks facet with
  | false => exact List.filter_eq_nil_iff.mpr fun e he => by simp [facet_of_mem_brought he, hown]
  | true =>
      cases hother : other.lacks facet with
      | true =>
          refine List.filter_eq_self.mpr fun e he => ?_
          have hfacet := facet_of_mem_brought he
          simp [hfacet, hown, lacks_iff.mp hother e.1 hfacet]
      | false =>
          rw [brought_eq, List.filter_filter]
          simp only [if_true, if_false, Bool.false_eq_true, brought_eq]
          refine List.filter_congr fun e he => ?_
          simp [facet_of_mem_entriesOf he, hown]

theorem assignFacet_eq (joined left right : Facts) (given : Facts × Facts) (facet : Facet) :
    joined.assignFacet left right given facet =
      (given.1.addAll ((joined.filter fun i => left.lacks i.facet && !right.has i).brought facet [] none),
        given.2.addAll ((joined.filter fun i => right.lacks i.facet && !left.has i).brought facet [] none)) := by
  rw [brought_share, brought_share, assignFacet]
  cases left.lacks facet <;> cases right.lacks facet <;> simp [mergeFacet, learnFacet_eq, receive, addAll]

/-- Each operand is given what is new to both, of the facets that it knows nothing of. -/
theorem assignJoin_eq (joined left right : Facts) :
    joined.assignJoin left right =
      (empty.merge (joined.filter fun i => left.lacks i.facet && !right.has i) [],
        empty.merge (joined.filter fun i => right.lacks i.facet && !left.has i) []) := by
  simp only [assignJoin, merge, learn_eq, receive, broughtAll, Facet.all, List.foldl_cons, List.foldl_nil,
    List.flatMap_cons, List.flatMap_nil, List.append_nil, addAll_append, assignFacet_eq]

theorem assignJoin_snd (joined left right : Facts) :
    (joined.assignJoin left right).2 = (joined.assignJoin right left).1 := by
  rw [assignJoin_eq, assignJoin_eq]

theorem trace?_assignJoin (joined left right : Facts) (i : Item) :
    (joined.assignJoin left right).1.trace? i =
      if left.lacks i.facet && !right.has i then joined.trace? i else none := by
  simp [assignJoin_eq, trace?_merge, trace?_filter]

theorem has_assignJoin (joined left right : Facts) (i : Item) :
    (joined.assignJoin left right).1.has i = (left.lacks i.facet && !right.has i && joined.has i) := by
  simp [assignJoin_eq]

/-! ## What learning does -/

/-- What was known, what the others offer and the items that may be taken of it, against the answer and what is known
then. An item belongs to one facet, so this is about each facet by itself. -/
structure Learned (f other : Facts) (Takes : Item → Prop) (step : Path) (r : Bool × Facts) : Prop where
  has : ∀ i, r.2.has i ↔ f.has i ∨ Takes i ∧ other.has i
  kept : ∀ i t, f.trace? i = some t → r.2.trace? i = some t
  extended : ∀ i path, f.has i = false → Takes i → other.trace? i = some (some path) →
    r.2.trace? i = some (some (path ++ step))
  dropped : ∀ i, f.has i = false → Takes i → other.trace? i = some none → r.2.trace? i = some none
  gained : r.1 = true ↔ ∃ facet, ¬r.2.only facet ⊆ f.only facet
  grown : r.1 = true ↔ ∃ facet, f.facetSize facet < r.2.facetSize facet
  changed : r.1 = true ↔ r.2 ≠ f

theorem learned_receive {Takes : Item → Prop} [DecidablePred Takes] {step : Path}
    (h : ∀ i, (f.addAll es).trace? i =
      (f.trace? i).or (if Takes i then (other.trace? i).map (·.extend step) else none)) :
    Learned f other Takes step (f.receive es) where
  has i := by
    rw [has_eq_isSome, has_eq_isSome, has_eq_isSome, receive, h, Option.isSome_or]
    by_cases ht : Takes i <;> simp [ht]
  kept i t ht := by
    rw [receive, h, ht]
    rfl
  extended i path hnew ht hpath := by
    rw [has_eq_isSome, Option.isSome_eq_false_iff, Option.isNone_iff_eq_none] at hnew
    rw [receive, h, hnew, if_pos ht, hpath]
    rfl
  dropped i hnew ht hpath := by
    rw [has_eq_isSome, Option.isSome_eq_false_iff, Option.isNone_iff_eq_none] at hnew
    rw [receive, h, hnew, if_pos ht, hpath]
    rfl
  gained := by
    rw [receive_fst_iff]
    constructor
    · rintro ⟨i, hi, hnew⟩
      refine ⟨i.facet, fun hsub => ?_⟩
      simp [only_subset_only_iff.mp hsub i rfl hi] at hnew
    · rintro ⟨facet, hsub⟩
      rw [only_subset_only_iff] at hsub
      simp only [Classical.not_forall, Bool.not_eq_true] at hsub
      obtain ⟨i, _, hi, hnew⟩ := hsub
      exact ⟨i, hi, hnew⟩
  grown := by
    rw [receive_fst_iff]
    constructor
    · rintro ⟨i, hi⟩
      exact ⟨i.facet, (facetSize_addAll f es i.facet).2.mpr ⟨i, rfl, hi⟩⟩
    · rintro ⟨facet, hlt⟩
      obtain ⟨i, _, hi⟩ := (facetSize_addAll f es facet).2.mp hlt
      exact ⟨i, hi⟩
  changed := by
    constructor
    · intro hgained hsame
      obtain ⟨i, hi, hnew⟩ := receive_fst_iff.mp hgained
      simp [hsame, hnew] at hi
    · intro hne
      cases hgained : (f.receive es).1 with
      | true => rfl
      | false => exact absurd (addAll_of_known (by simpa [receive] using hgained)) hne

theorem has_foldl_merge (merges : List (Facts × Path)) (f : Facts) (i : Item) :
    (merges.foldl (fun known m => known.merge m.1 m.2) f).has i = (f.has i || merges.any (·.1.has i)) := by
  induction merges generalizing f with
  | nil => simp
  | cons m merges ih => rw [List.foldl_cons, ih, has_merge, List.any_cons, Bool.or_assoc]

/-- Facts that learn from others afterwards have what either had, each item with the trace with which it came first, and
the answer is that some facet has gained an item, which is that the facts have changed. Learning the same again changes
nothing. Of a single facet, all that is not to be excluded is learned, and nothing else. The order of several merges
makes no difference to the items. -/
theorem learn_exact (f other : Facts) (step : Path) :
    Learned f other (fun _ => True) step (f.learn other step) ∧
      (∀ step', (f.merge other step).learn other step' = (false, f.merge other step)) ∧
      (∀ facet exclude,
        Learned f other (fun i => i.facet = facet ∧ exclude.has i = false) step
            (f.learnFacet other facet step (some exclude)) ∧
          ∀ i, i.facet ≠ facet → (f.mergeFacet other facet step exclude).trace? i = f.trace? i) ∧
      ∀ merges merges' : List (Facts × Path), merges.Perm merges' → ∀ i,
        (merges.foldl (fun known m => known.merge m.1 m.2) f).has i =
          (merges'.foldl (fun known m => known.merge m.1 m.2) f).has i := by
  have hfacet : ∀ facet exclude i, (f.addAll (other.brought facet step (some exclude))).trace? i =
      (f.trace? i).or
        (if i.facet = facet ∧ exclude.has i = false then (other.trace? i).map (·.extend step) else none) := by
    intro facet exclude i
    simp only [trace?_brought, Option.any_some, Bool.not_eq_true']
  refine ⟨?_, fun step' => ?_, fun facet exclude => ⟨?_, fun i hi => ?_⟩, fun merges merges' hperm i => ?_⟩
  · have hall := trace?_merge f other step
    simp only [merge, learn_eq, receive] at hall
    rw [learn_eq]
    exact learned_receive fun i => by rw [hall, if_pos trivial]
  · rw [learn_eq]
    exact receive_of_known fun e he => by simp [has_of_mem_broughtAll he]
  · rw [learnFacet_eq]
    exact learned_receive (hfacet facet exclude)
  · rw [mergeFacet, learnFacet_eq, receive, hfacet, if_neg fun h => hi h.1, Option.or_none]
  · rw [has_foldl_merge, has_foldl_merge, hperm.any_eq]

/-- Two texts that are new, one of them without its path, a text that is known, and a constant. -/
theorem learn_exact_of_texts :
    let step : Path := [⟨0, 9⟩]
    let known := (empty.add (.text "A") (some [⟨0, 1⟩])).add (.constant (.int 7)) none
    let other := ((empty.add (.text "C") none).add (.text "A") (some [⟨0, 2⟩])).add (.text "B") (some [⟨0, 3⟩])
    let more := empty.add (.text "B") none
    let merged := known.merge other step
    (known.learn other step).1 = true ∧ merged.trace? (.text "A") = some (some [⟨0, 1⟩]) ∧
      merged.trace? (.text "B") = some (some [⟨0, 3⟩, ⟨0, 9⟩]) ∧ merged.trace? (.text "C") = some none ∧
      merged.learn other [] = (false, merged) ∧
      (known.learnFacet other .texts step (some more)).2.has (.text "B") = false ∧
      (known.mergeFacet other .texts step more).trace? (.constant (.int 7)) = some none ∧
      [(other, step), (more, [])].Perm [(more, []), (other, step)] ∧
      ((known.merge other step).merge more []).has (.text "B") =
        ((known.merge more []).merge other step).has (.text "B") := by
  intro step known other more merged
  obtain ⟨hlearn, hagain, hfacet, horder⟩ := learn_exact known other step
  obtain ⟨htexts, hrest⟩ := hfacet .texts more
  have hperm : [(other, step), (more, [])].Perm [(more, []), (other, step)] := .swap _ _ _
  refine ⟨?_, ?_, ?_, ?_, hagain [], ?_, ?_, hperm, horder _ _ hperm _⟩
  · exact hlearn.grown.mpr ⟨.texts, by decide +kernel⟩
  · exact hlearn.kept _ _ (by decide +kernel)
  · exact hlearn.extended _ [⟨0, 3⟩] (by decide +kernel) trivial (by decide +kernel)
  · exact hlearn.dropped _ (by decide +kernel) trivial (by decide +kernel)
  · rw [Bool.eq_false_iff, ne_eq, htexts.has]
    decide +kernel
  · rw [hrest _ (by decide)]
    decide +kernel

end Facts

end SinkFlow
