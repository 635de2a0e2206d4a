import SinkFlow.Build.Fields
import SinkFlow.Proofs.Build.Run
import SinkFlow.Proofs.Propagation.Seed

/-!
What a collection of fields adds to a graph, as a list of notes: an item for a node, with its trace. Views get
their fields first, so that a literal from a static initializer only comes to a node that knows a field.
-/

namespace SinkFlow

namespace FlowGraph

variable {g g' : FlowGraph} {n : NodeId} {i : Item} {t : Trace} {p : Program}

/-- Adds items to nodes, one after another. -/
def note (g : FlowGraph) (notes : List (NodeId × Item × Trace)) : FlowGraph :=
  notes.foldl (fun g note => g.editFacts note.1 (·.add note.2.1 note.2.2)) g

theorem note_append (g : FlowGraph) (as bs : List (NodeId × Item × Trace)) :
    g.note (as ++ bs) = (g.note as).note bs := List.foldl_append

theorem grows_note (g : FlowGraph) (notes : List (NodeId × Item × Trace)) : Grows g (g.note notes) := by
  induction notes generalizing g with
  | nil => exact .refl g
  | cons a notes ih =>
      have hadd : Grows g (g.editFacts a.1 (·.add a.2.1 a.2.2)) := by
        refine Grows.editFacts a.1 _ ?_
        intro i hi
        simp [hi]
      exact hadd.trans (ih _)

theorem trace?_note {notes : List (NodeId × Item × Trace)} (h : ((g.note notes).factsAt n).trace? i = some t) :
    (g.factsAt n).trace? i = some t ∨ (n, i, t) ∈ notes := by
  induction notes generalizing g with
  | nil => exact .inl h
  | cons a notes ih =>
      obtain ⟨m, j, u⟩ := a
      rcases ih h with h | h
      · rw [factsAt_editFacts] at h
        split at h
        · rename_i hm
          obtain ⟨rfl, _⟩ := hm
          rw [Facts.trace?_add] at h
          rcases Option.or_eq_some_iff.mp h with h | ⟨_, h⟩
          · exact .inl h
          · split at h
            · rename_i hi
              cases h
              exact .inr (by simp [hi])
            · cases h
        · exact .inl h
      · exact .inr (List.mem_cons_of_mem _ h)

theorem has_note {notes : List (NodeId × Item × Trace)} (hn : (g.node? n).isSome) (h : (n, i, t) ∈ notes) :
    ((g.note notes).factsAt n).has i := by
  obtain ⟨as, bs, rfl⟩ := List.append_of_mem h
  rw [note_append]
  have hnode : ((g.note as).node? n).isSome := (grows_note g as).shape.node?_isSome n ▸ hn
  refine (grows_note ((g.note as).editFacts n (·.add i t)) bs).facts n i ?_
  rw [factsAt_editFacts_self _ hnode]
  simp

/-! ## The notes of a collection -/

def incomingNotes (g : FlowGraph) (field : FieldSignature) : List (NodeId × Item × Trace) :=
  (g.incomingViews field).map (·, .inputField field, some [])

def outgoingNotes (g : FlowGraph) (field : FieldSignature) : List (NodeId × Item × Trace) :=
  (g.outgoingViews field).map (·, .outputField field, some [])

/-- The views that read a static field are to know the literals that its initializer stores. -/
def initializerNotes (p : Program) (g : FlowGraph) (field : FieldSignature) : List (NodeId × Item × Trace) :=
  match p.initializer? field.className with
  | none => []
  | some body =>
    (body.literalsOf p field).flatMap fun l => (FieldStats.staticViews g field).map (·, l.item, l.trace)

/-- Everything that a collection of fields adds, in its order. -/
def fieldNotes (p : Program) (g : FlowGraph) : List (NodeId × Item × Trace) :=
  g.incomingFields.flatMap g.incomingNotes ++ g.outgoingFields.flatMap g.outgoingNotes ++
    (g.incomingFields.filter fun f => !(FieldStats.staticViews g f).isEmpty).flatMap (initializerNotes p g)

/-- What is noted is a field, or a literal for a node that a field is noted for as well. Only constants are noted
without a trace. -/
theorem fieldNotes_cases (h : (n, i, t) ∈ fieldNotes p g) :
    (i.facet = .inputFields ∨ i.facet = .outputFields) ∧ t = some [] ∨
      ∃ field l, i = Literal.item l ∧ t = Literal.trace l ∧ (n, .inputField field, some []) ∈ fieldNotes p g := by
  simp only [fieldNotes, List.mem_append, List.mem_flatMap] at h
  rcases h with (⟨field, _, h⟩ | ⟨field, _, h⟩) | ⟨field, hfield, h⟩
  · obtain ⟨_, _, h⟩ := List.mem_map.mp h
    cases h
    exact .inl ⟨.inl rfl, rfl⟩
  · obtain ⟨_, _, h⟩ := List.mem_map.mp h
    cases h
    exact .inl ⟨.inr rfl, rfl⟩
  · simp only [initializerNotes] at h
    split at h
    · cases h
    · obtain ⟨l, _, h⟩ := List.mem_flatMap.mp h
      obtain ⟨_, hview, h⟩ := List.mem_map.mp h
      cases h
      -- A view that reads the field as a static one is a view that reads it.
      have hin : (n, .inputField field, some []) ∈ g.incomingNotes field :=
        List.mem_map_of_mem (List.mem_filter.mp hview).1
      refine .inr ⟨field, l, rfl, rfl, ?_⟩
      simp only [fieldNotes, List.mem_append, List.mem_flatMap]
      exact .inl (.inl ⟨field, (List.mem_filter.mp hfield).1, hin⟩)

end FlowGraph

namespace GraphTables.SameShape

variable {g g' : FlowGraph}

theorem incomingNotes (h : SameShape g g') : g'.incomingNotes = g.incomingNotes := by
  funext field
  simp only [FlowGraph.incomingNotes, incomingViews, h.incoming]

theorem outgoingNotes (h : SameShape g g') : g'.outgoingNotes = g.outgoingNotes := by
  funext field
  simp only [FlowGraph.outgoingNotes, outgoingViews, h.outgoing]

theorem staticViews (h : SameShape g g') (field : FieldSignature) :
    FieldStats.staticViews g' field = FieldStats.staticViews g field := by
  simp only [FieldStats.staticViews, incomingViews, h.incoming, h.node?]

theorem initializerNotes (h : SameShape g g') (p : Program) : g'.initializerNotes p = g.initializerNotes p := by
  funext field
  simp only [FlowGraph.initializerNotes, h.staticViews]

end GraphTables.SameShape

/-! ## Collecting -/

namespace FieldStats

open FlowGraph GraphTables

theorem ensures_addToViews (i : Item) (t : Trace) (views : List NodeId) (g : FlowGraph) :
    Ensures (· = g) (addToViews i t views) fun _ g' => g' = g.note (views.map (·, i, t)) := by
  induction views generalizing g with
  | nil => exact .pure fun _ hg => hg
  | cons view views ih =>
      refine .bind (Q := fun _ g' => g' = g.editFacts view (·.add i t)) (Edit.ensures_attempt ?_) fun new => ?_
      · intro g₁ new g' hg hf
        subst hg
        simp only [addFact, expectNode, bind, Except.bind, pure, Except.pure] at hf
        split at hf
        · cases hf
        · cases hf
          rfl
      · exact .bind (ih _) fun _ => .pure fun _ hg => hg

/-- Steps that each make the notes of one element make the notes of a list of them. -/
theorem ensures_foldlM {f : FieldStats → FieldSignature → Edit FieldStats}
    {notes : FlowGraph → FieldSignature → List (NodeId × Item × Trace)}
    (step : ∀ s field g, Ensures (· = g) (f s field) fun _ g' => g' = g.note (notes g field))
    (stable : ∀ g g' : FlowGraph, SameShape g g' → notes g' = notes g) (fields : List FieldSignature) (s : FieldStats)
    (g : FlowGraph) : Ensures (· = g) (fields.foldlM f s) fun _ g' => g' = g.note (fields.flatMap (notes g)) := by
  induction fields generalizing s g with
  | nil => exact .pure fun _ hg => hg
  | cons field fields ih =>
      refine .bind (step s field g) fun s' => ?_
      have hrest := ih s' (g.note (notes g field))
      rw [stable _ _ (grows_note g (notes g field)).shape, ← note_append] at hrest
      exact hrest

theorem ensures_addIncoming (s : FieldStats) (field : FieldSignature) (g : FlowGraph) :
    Ensures (· = g) (addIncoming s field) fun _ g' => g' = g.note (g.incomingNotes field) := by
  refine .get_bind fun g₁ hg => ?_
  subst hg
  exact .bind (ensures_addToViews _ _ _ _) fun _ => .pure fun _ hg => hg

theorem ensures_addOutgoing (s : FieldStats) (field : FieldSignature) (g : FlowGraph) :
    Ensures (· = g) (addOutgoing s field) fun _ g' => g' = g.note (g.outgoingNotes field) := by
  refine .get_bind fun g₁ hg => ?_
  subst hg
  exact .bind (ensures_addToViews _ _ _ _) fun _ => .pure fun _ hg => hg

theorem ensures_inject (views : List NodeId) (s : FieldStats) (ls : List Literal) (g : FlowGraph) :
    Ensures (· = g) (inject views s ls) fun _ g' =>
      g' = g.note (ls.flatMap fun l => views.map (·, l.item, l.trace)) := by
  induction ls generalizing s g with
  | nil => exact .pure fun _ hg => hg
  | cons l ls ih =>
      refine .bind (ensures_addToViews _ _ _ g) fun new => ?_
      rw [List.flatMap_cons, note_append]
      exact ih _ _

theorem ensures_addInitializer (p : Program) (s : FieldStats) (field : FieldSignature) (g : FlowGraph) :
    Ensures (· = g) (addInitializer p s field) fun _ g' => g' = g.note (initializerNotes p g field) := by
  refine .get_bind fun g₁ hg => ?_
  subst hg
  cases hb : p.initializer? field.className with
  | none =>
      simp only [initializerNotes, hb]
      exact .pure fun _ hg => hg
  | some body =>
      simp only [initializerNotes, hb]
      exact ensures_inject _ _ _ _

/-- A collection of fields that succeeds makes its notes and moves on to the next stage. -/
theorem ensures_collect (p : Program) (g : FlowGraph) :
    Ensures (· = g) (collect p) fun _ g' => g' = (g.note (fieldNotes p g)).inPhase .fieldsCollected := by
  refine .bind (Q := fun _ g' => g' = g) (Edit.ensures_attempt ?_) fun _ => .get_bind fun g₁ hg => ?_
  · intro g₁ a g' hg hf
    subst hg
    by_cases hp : g₁.phase = .building <;> simp [expect, hp, Except.map] at hf
    exact hf.symm
  · subst hg
    -- The lists of views are read off the graph as it was; notes do not change them.
    refine .bind (ensures_foldlM ensures_addIncoming (fun _ _ h => h.incomingNotes) _ _ _) fun s => ?_
    refine .bind (ensures_foldlM ensures_addOutgoing (fun _ _ h => h.outgoingNotes) _ _ _) fun s => ?_
    refine .bind (ensures_foldlM (ensures_addInitializer p) (fun _ _ h => h.initializerNotes p) _ _ _) fun s => ?_
    have hin := (grows_note g₁ (g₁.incomingFields.flatMap g₁.incomingNotes)).shape
    have hout := (grows_note (g₁.note (g₁.incomingFields.flatMap g₁.incomingNotes))
      (g₁.outgoingFields.flatMap g₁.outgoingNotes)).shape
    rw [hin.outgoingNotes, (hin.trans hout).initializerNotes p, ← note_append, ← note_append]
    refine .bind (Edit.ensures_attemptUpdate ?_) fun _ => .pure fun _ hg => hg
    intro g₂ g' hg hf
    obtain ⟨_, rfl⟩ := advance_eq_ok_iff.mp hf
    rw [hg, fieldNotes, List.append_assoc]

end FieldStats

namespace FlowGraph

variable {g g' : FlowGraph} {n : NodeId} {i : Item} {t : Trace} {p : Program} {fields : FieldStats}

theorem collectFields_eq (h : g.collectFields p = (.ok fields, g')) :
    g' = (g.note (fieldNotes p g)).inPhase .fieldsCollected :=
  FieldStats.ensures_collect p g g fields g' rfl h

theorem Charted.collectFields {e : EntrypointId} {q : Program} (hg : g.Charted e q)
    (h : g.collectFields p = (.ok fields, g')) : g'.Charted e q := by
  have hshape := (grows_note g (fieldNotes p g)).shape
  rw [collectFields_eq h]
  exact ⟨hshape.entrypoint.trans hg.entrypoint, hshape.constraints ▸ hg.paths, hshape.chains ▸ hg.operands⟩

theorem trace?_collectFields (hg : ∀ n i, (g.factsAt n).has i = false) (h : g.collectFields p = (.ok fields, g'))
    (ht : (g'.factsAt n).trace? i = some t) : (n, i, t) ∈ fieldNotes p g := by
  rw [collectFields_eq h] at ht
  rcases trace?_note ht with ht | ht
  · have hi := Facts.has_of_trace? ht
    simp [hg n i] at hi
  · exact ht

/-- A propagation can start with the fields that were collected: every node that knows something knows a field. -/
theorem awaited_collectFields (hg : ∀ n i, (g.factsAt n).has i = false) (h : g.collectFields p = (.ok fields, g')) :
    g'.Awaited := by
  intro n i hi
  right
  obtain ⟨t, ht⟩ := Facts.trace?_of_has hi
  have hnode : (g.node? n).isSome := by
    have hn : ((g.note (fieldNotes p g)).node? n).isSome := by
      have hn := node?_isSome_of_has hi
      rwa [collectFields_eq h] at hn
    exact (grows_note g _).shape.node?_isSome n ▸ hn
  rcases fieldNotes_cases (trace?_collectFields hg h ht) with ⟨hfield, _⟩ | ⟨field, _, _, _, hnote⟩
  · exact Facts.hasFields_iff.mpr ⟨i, hi, hfield⟩
  · rw [collectFields_eq h]
    exact Facts.hasFields_iff.mpr ⟨.inputField field, has_note hnode hnote, .inl rfl⟩

/-- A graph as a propagation gets it: it was built from a program, starting with an empty graph, and then its fields
were collected. -/
def Collected (g : FlowGraph) : Prop :=
  ∃ (e : EntrypointId) (t : Setting) (cancelled : Bool) (built : BuildStats) (p : Program) (fields : FieldStats),
    (({ entrypoint := e } : FlowGraph).build t cancelled).result = .ok built ∧
      (({ entrypoint := e } : FlowGraph).build t cancelled).graph.collectFields p = (.ok fields, g)

theorem Collected.awaited (h : g.Collected) : g.Awaited := by
  obtain ⟨e, t, cancelled, built, p, fields, hbuild, hcollect⟩ := h
  exact awaited_collectFields (drawn_build hbuild).blank hcollect

end FlowGraph

end SinkFlow
