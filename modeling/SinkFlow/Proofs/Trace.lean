import SinkFlow.Proofs.Flow.Shape

/-!
Facts that are fully traced: a text or a field is known with a trace that was not dropped, and that leads over
statements with some property only. No trace is kept for constants.
-/

namespace SinkFlow

/-- A trace that was not dropped and leads over statements with a property only. -/
def Trace.LeadsOver (P : StatementRef → Prop) (t : Trace) : Prop := ∃ path, t = some path ∧ ∀ r ∈ path, P r

/-- Every text and every field is known with a trace that leads over statements with a property only. -/
def Facts.Traced (P : StatementRef → Prop) (f : Facts) : Prop :=
  ∀ i t, i.facet ≠ .constants → f.trace? i = some t → Trace.LeadsOver P t

namespace Trace.LeadsOver

variable {P Q : StatementRef → Prop} {t u : Trace}

theorem nil : LeadsOver P (some []) := ⟨[], rfl, nofun⟩

theorem mono (hPQ : ∀ r, P r → Q r) (h : LeadsOver P t) : LeadsOver Q t := by
  obtain ⟨path, rfl, hp⟩ := h
  exact ⟨path, rfl, fun r hr => hPQ r (hp r hr)⟩

theorem join (ht : LeadsOver P t) (hu : LeadsOver P u) : LeadsOver P (Trace.join t u) := by
  obtain ⟨a, rfl, ha⟩ := ht
  obtain ⟨b, rfl, hb⟩ := hu
  refine ⟨a ++ b, rfl, fun r hr => ?_⟩
  exact (List.mem_append.mp hr).elim (ha r) (hb r)

theorem map {cut : Path → Path} (hcut : ∀ path, cut path ⊆ path) (h : LeadsOver P t) : LeadsOver P (t.map cut) := by
  obtain ⟨path, rfl, hp⟩ := h
  exact ⟨cut path, rfl, fun r hr => hp r (hcut path hr)⟩

end Trace.LeadsOver

namespace Facts

variable {P Q : StatementRef → Prop} {f other : Facts}

theorem mem_listing {β : Type} {le : β × Trace → β × Trace → Bool} {pick : Item × Trace → Option (β × Trace)}
    {form : β → Item} (hpick : ∀ i t b u, pick (i, t) = some (b, u) ↔ i = form b ∧ t = u) {b : β} {t : Trace} :
    (b, t) ∈ sortBy le (f.items.entries.filterMap pick) ↔ f.trace? (form b) = some t := by
  simp only [mem_sortBy, List.mem_filterMap, ← mem_entries_iff, Prod.exists, hpick]
  constructor
  · rintro ⟨_, _, hmem, rfl, rfl⟩
    exact hmem
  · intro hmem
    exact ⟨_, _, hmem, rfl, rfl⟩

theorem mem_texts {text : String} {t : Trace} : (text, t) ∈ f.texts ↔ f.trace? (.text text) = some t :=
  mem_listing fun i t b u => by cases i <;> simp

theorem mem_constants {c : Constant} : c ∈ f.constants ↔ f.has (.constant c) := by
  simp only [constants, mem_sortBy, List.mem_filterMap, ← mem_keys_iff_has]
  constructor
  · rintro ⟨i, hi, hpick⟩
    cases i <;> cases hpick
    exact hi
  · intro hi
    exact ⟨.constant c, hi, rfl⟩

theorem mem_inputFields {field : FieldSignature} {t : Trace} :
    (field, t) ∈ f.inputFields ↔ f.trace? (.inputField field) = some t :=
  mem_listing fun i t b u => by cases i <;> simp

theorem mem_outputFields {field : FieldSignature} {t : Trace} :
    (field, t) ∈ f.outputFields ↔ f.trace? (.outputField field) = some t :=
  mem_listing fun i t b u => by cases i <;> simp

namespace Traced

theorem empty : Traced P empty := nofun

theorem mono (hPQ : ∀ r, P r → Q r) (h : Traced P f) : Traced Q f := fun i t hi ht => (h i t hi ht).mono hPQ

theorem filter (p : Item → Bool) (h : Traced P f) : Traced P (f.filter p) :=
  fun i t hi ht => h i t hi (trace?_of_filter ht)

theorem add {i : Item} {t : Trace} (h : Traced P f) (ht : i.facet ≠ .constants → Trace.LeadsOver P t) :
    Traced P (f.add i t) := by
  intro j u hj hu
  rw [trace?_add] at hu
  rcases Option.or_eq_some_iff.mp hu with hu | ⟨_, hu⟩
  · exact h j u hj hu
  · split at hu
    · rename_i he
      cases hu
      exact ht (he ▸ hj)
    · cases hu

theorem merge (h : Traced P f) (ho : Traced P other) : Traced P (f.merge other []) := by
  intro i t hi ht
  rw [trace?_merge] at ht
  rcases Option.or_eq_some_iff.mp ht with ht | ⟨_, ht⟩
  · exact h i t hi ht
  · obtain ⟨u, hu, rfl⟩ := Option.map_eq_some_iff.mp ht
    obtain ⟨path, rfl, hp⟩ := ho i u hi hu
    exact ⟨path ++ [], rfl, by simpa using hp⟩

end Traced

end Facts

namespace FlowGraph

variable {P : StatementRef → Prop} {g : FlowGraph}

/-- Every text and every field at every node is known with a trace that leads over statements with a property
only. -/
def Traced (P : StatementRef → Prop) (g : FlowGraph) : Prop := ∀ n, (g.factsAt n).Traced P

theorem Traced.editFacts {edit : Facts → Facts} (h : g.Traced P) (hedit : ∀ f, f.Traced P → (edit f).Traced P)
    (n : NodeId) : (g.editFacts n edit).Traced P := by
  intro k
  rw [factsAt_editFacts]
  split
  · exact hedit _ (h k)
  · exact h k

theorem Traced.record? {n : NodeId} {r : NodeRecord} (h : g.Traced P) (hr : g.record? n = some r) :
    r.facts.Traced P := GraphTables.factsAt_of_record? hr ▸ h n

end FlowGraph

end SinkFlow
