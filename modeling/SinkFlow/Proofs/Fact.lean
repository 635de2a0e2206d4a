import SinkFlow.Fact

/-!
Facts seen through two look-ups: whether an item is known (`has`) and with which trace (`trace?`). Every
operation on facts is described by what it does to these, and no other module looks at the entries.
-/

namespace SinkFlow

namespace Table

variable {κ ν : Type} [DecidableEq κ]

/-- A key has one value, so looking it up is the same as finding its entry. -/
theorem get?_eq_some_iff {t : Table κ ν} {k : κ} {v : ν} : t.get? k = some v ↔ (k, v) ∈ t.entries := by
  obtain ⟨es, hnd⟩ := t
  simp only [get?]
  induction es with
  | nil => simp
  | cons e es ih =>
      obtain ⟨a, b⟩ := e
      simp only [List.map_cons, List.nodup_cons] at hnd
      by_cases hk : k = a
      · subst hk
        have hn : ∀ w, (k, w) ∉ es := fun w hw => hnd.1 (List.mem_map_of_mem hw)
        simp [hn, eq_comm]
      · have hb : (k == a) = false := by simp [hk]
        simpa [List.lookup_cons, hb, hk] using ih hnd.2

theorem mem_keys_iff {t : Table κ ν} {k : κ} : k ∈ t.keys ↔ (t.get? k).isSome := by
  rw [← Decidable.not_iff_not, ← get?_eq_none_iff]
  cases t.get? k <;> simp

theorem get?_filter (p : κ → Bool) (t : Table κ ν) (k : κ) :
    (t.filter fun k' _ => p k').get? k = if p k then t.get? k else none := by
  apply Option.ext
  intro v
  rw [get?_eq_some_iff]
  by_cases hp : p k
  · simp [filter, hp, get?_eq_some_iff]
  · simp [filter, hp]

theorem get?_erase (t : Table κ ν) (k j : κ) : (t.erase k).get? j = if j = k then none else t.get? j := by
  simp only [erase, get?_filter, decide_eq_true_eq]
  by_cases hj : j = k <;> simp [hj]

end Table

namespace Facts

/-! ## Traces -/

@[simp] theorem trace?_empty (i : Item) : empty.trace? i = none := rfl

theorem trace?_add (f : Facts) (a : Item) (t : Trace) (i : Item) :
    (f.add a t).trace? i = (f.trace? i).or (if i = a then some t else none) := by
  simp only [trace?, add, Table.get?_insertIfNew]
  by_cases hi : i = a
  · subst hi
    by_cases hk : i ∈ f.items.keys
    · obtain ⟨u, hu⟩ := Option.isSome_iff_exists.mp (Table.mem_keys_iff.mp hk)
      simp [hk, hu]
    · simp [hk, Table.get?_eq_none_iff.mpr hk]
  · simp [hi]

/-- Of items that are added one after another, the first one gives the trace. -/
theorem trace?_foldl_add (traceOf : Trace → Trace) (es : List (Item × Trace)) (f : Facts) (i : Item) :
    (es.foldl (fun acc e => acc.add e.1 (traceOf e.2)) f).trace? i =
      (f.trace? i).or ((es.lookup i).map traceOf) := by
  induction es generalizing f with
  | nil => simp
  | cons e es ih =>
      obtain ⟨a, t⟩ := e
      rw [List.foldl_cons, ih, trace?_add, Option.or_assoc]
      by_cases hi : i = a
      · simp [hi]
      · have hb : (i == a) = false := by simp [hi]
        simp [List.lookup_cons, hb, hi]

theorem trace?_filter (p : Item → Bool) (f : Facts) (i : Item) :
    (f.filter p).trace? i = if p i then f.trace? i else none := Table.get?_filter p f.items i

theorem trace?_of_filter {p : Item → Bool} {f : Facts} {i : Item} {t : Trace} (h : (f.filter p).trace? i = some t) :
    f.trace? i = some t := by
  rw [trace?_filter] at h
  split at h
  · exact h
  · cases h

theorem trace?_dropTraces (f : Facts) (i : Item) : f.dropTraces.trace? i = (f.trace? i).map fun _ => none :=
  Table.get?_mapValues _ f.items i

theorem mem_entries_iff {f : Facts} {i : Item} {t : Trace} : (i, t) ∈ f.items.entries ↔ f.trace? i = some t :=
  Table.get?_eq_some_iff.symm

/-! ## Items -/

theorem has_eq_isSome (f : Facts) (i : Item) : f.has i = (f.trace? i).isSome := by
  rw [Bool.eq_iff_iff, has, Table.contains_iff, Table.mem_keys_iff, trace?]

theorem has_of_trace? {f : Facts} {i : Item} {t : Trace} (h : f.trace? i = some t) : f.has i := by
  simp [has_eq_isSome, h]

theorem trace?_of_has {f : Facts} {i : Item} (h : f.has i) : ∃ t, f.trace? i = some t :=
  Option.isSome_iff_exists.mp (has_eq_isSome f i ▸ h)

@[simp] theorem has_empty (i : Item) : empty.has i = false := rfl

@[simp] theorem has_add (f : Facts) (a : Item) (t : Trace) (i : Item) :
    (f.add a t).has i = (f.has i || decide (i = a)) := by
  by_cases hi : i = a <;> simp [has_eq_isSome, trace?_add, hi]

theorem has_foldl_add (traceOf : Trace → Trace) (es : List (Item × Trace)) (f : Facts) (i : Item) :
    (es.foldl (fun acc e => acc.add e.1 (traceOf e.2)) f).has i = (f.has i || es.any (·.1 = i)) := by
  induction es generalizing f with
  | nil => simp
  | cons e es ih => rw [List.foldl_cons, ih, has_add, List.any_cons, Bool.or_assoc, decide_eq_decide.mpr eq_comm]

@[simp] theorem has_filter (p : Item → Bool) (f : Facts) (i : Item) :
    (f.filter p).has i = (p i && f.has i) := by
  by_cases hp : p i <;> simp [has_eq_isSome, trace?_filter, hp]

theorem mem_keys_iff_has {f : Facts} {i : Item} : i ∈ f.items.keys ↔ f.has i := by
  rw [has, Table.contains_iff]

theorem isEmpty_iff {f : Facts} : f.isEmpty = true ↔ ∀ i, f.has i = false := by
  have hk : f.isEmpty = true ↔ f.items.keys = [] := by simp [isEmpty, Table.isEmpty, Table.keys]
  simp [hk, List.eq_nil_iff_forall_not_mem, mem_keys_iff_has]

theorem lacks_iff {f : Facts} {facet : Facet} :
    f.lacks facet = true ↔ ∀ i, i.facet = facet → f.has i = false := by
  have h : f.lacks facet = true ↔ ∀ i, i ∈ f.items.keys → i.facet ≠ facet := by simp [lacks]
  simp only [h, mem_keys_iff_has, ne_eq, ← Bool.not_eq_true]
  exact forall_congr' fun _ => imp_not_comm

theorem gains_iff {f other : Facts} : f.gains other = true ↔ ∃ i, other.has i ∧ f.has i = false := by
  simp [gains, mem_keys_iff_has]

theorem hasFields_iff {f : Facts} :
    f.hasFields = true ↔ ∃ i, f.has i ∧ (i.facet = .inputFields ∨ i.facet = .outputFields) := by
  simp [hasFields, lacks, mem_keys_iff_has, and_or_left, exists_or]

/-! ## Inclusion -/

/-- Facts are included in others that have all their items. An item belongs to one facet, so this is inclusion
facet by facet. -/
instance : HasSubset Facts := ⟨fun f g => ∀ i, f.has i → g.has i⟩

theorem subset_iff {f g : Facts} : f ⊆ g ↔ ∀ i, f.has i → g.has i := Iff.rfl

theorem lacks_mono {f g : Facts} {facet : Facet} (h : f ⊆ g) (hg : g.lacks facet) : f.lacks facet := by
  rw [lacks_iff] at hg ⊢
  intro i hi
  cases hf : f.has i with
  | false => rfl
  | true => exact absurd (h i hf) (by simp [hg i hi])

theorem only_subset_only_iff {f g : Facts} {facet : Facet} :
    f.only facet ⊆ g.only facet ↔ ∀ i, i.facet = facet → f.has i → g.has i := by
  simp only [subset_iff, only, has_filter, Bool.and_eq_true, decide_eq_true_eq]
  exact forall_congr' fun i => ⟨fun h hf hi => (h ⟨hf, hi⟩).2, fun h hi => ⟨hi.1, h hi.1 hi.2⟩⟩

theorem only_subset_only {f g : Facts} (h : f ⊆ g) (facet : Facet) : f.only facet ⊆ g.only facet :=
  only_subset_only_iff.mpr fun i _ hi => h i hi

theorem isEmpty_without_iff {f other : Facts} : (f.without other).isEmpty ↔ f ⊆ other := by
  simp only [isEmpty_iff, subset_iff, without, has_filter]
  refine forall_congr' fun i => ?_
  cases other.has i <;> simp

theorem filter_filter (p q : Item → Bool) (f : Facts) : (f.filter p).filter q = f.filter fun i => p i && q i := by
  simp [filter, Table.filter, List.filter_filter, Bool.and_comm]

end Facts

end SinkFlow
