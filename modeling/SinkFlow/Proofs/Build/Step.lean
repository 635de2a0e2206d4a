import SinkFlow.Proofs.Build.Gate
import SinkFlow.Proofs.Build.Memory

/-!
What happens to a statement that is taken from the queue of a run. It is handled if it can be looked up, and leads on
to its successors unless the gate has let it through before.
-/

namespace SinkFlow

/-- A call that can be reached lacks an operand that a sink definition or a rule for it names. -/
def Setting.Lacks (t : Setting) (call : Invoke) (index : Int) : Prop :=
  ∃ q id, t.program.Runs q id (.normal (.invoke call)) ∧ t.Unresolved id call index

/-- An error names a call that can be reached and an operand that it lacks. -/
def Setting.Rejects (t : Setting) (e : AnalysisError) : Prop :=
  ∃ call index, t.Lacks call index ∧ e = .unresolvedOperand call.signature index call.uses.length

theorem Program.Reaches.runs {p : Program} {id : StatementId} {statement : Statement} (h : p.Reaches id)
    (hstatement : p.statement? id = some statement) : p.Runs statement.procedure statement.id statement.kind := by
  cases p.id_of_statement? hstatement
  exact ⟨h, hstatement⟩

theorem Setting.Rejects.of_refused {t : Setting} {statement : Statement} {e : AnalysisError}
    (hruns : t.program.Runs statement.procedure statement.id statement.kind) (h : Build.Refused t statement e) :
    t.Rejects e := by
  obtain ⟨call, hkind, index, hun, rfl⟩ := h
  exact ⟨call, index, ⟨statement.procedure, statement.id, hkind ▸ hruns, hun⟩, rfl⟩

namespace Build

variable {t : Setting} {s : BuildState} {E : AnalysisError → Prop}

/-- What any part of a build does to the state: it extends the graph, what was handled stays so, and a build that was
asked to stop stays so. -/
structure Proceeds (t : Setting) (s s' : BuildState) : Prop where
  graph : s.graph.Extends s'.graph
  sound : s.Sound t → s'.Sound t
  handled : s.handled ⊆ s'.handled
  cancelled : s.cancelled → s'.cancelled

def proceeding (t : Setting) : Course BuildState where
  leads := Proceeds t
  refl _ := ⟨.refl _, id, List.Subset.refl _, id⟩
  trans h h' := ⟨h.graph.trans h'.graph, h'.sound ∘ h.sound, List.Subset.trans h.handled h'.handled,
    h'.cancelled ∘ h.cancelled⟩

theorem ends_of_visiting {α : Type} {x : Build α} {Q : α → BuildState → Prop} (h : (visiting t).Ends s x Q E) :
    (proceeding t).Ends s x (fun a s' => Q a s' ∧ s'.gate = s.gate ∧ s'.handled = s.handled) E :=
  h.mono (fun _ hl => ⟨hl.graph, hl.sound, hl.handled ▸ List.Subset.refl _, fun hc => hl.cancelled.trans hc⟩)
    (fun _ _ hl hq => ⟨hq, hl.gate, hl.handled⟩) fun _ he => he

/-! ## One statement -/

theorem ends_lookUp (p : Program) (id : StatementId) :
    (proceeding t).Ends s (lookUp p id)
      (fun r s' => r = p.statement? id ∧ s'.pairing = s.pairing ∧ s'.gate = s.gate ∧ s'.handled = s.handled) E := by
  unfold lookUp
  dsimp only
  split
  · refine .bind (Q := fun _ s' => s'.pairing = s.pairing ∧ s'.gate = s.gate ∧ s'.handled = s.handled)
      (.modify ⟨.refl _, fun hs => ⟨hs.graph, hs.pairing⟩, List.Subset.refl _, fun _ => rfl⟩ ⟨rfl, rfl, rfl⟩) ?_
    exact fun _ s' _ hsame => .pure ⟨rfl, hsame⟩
  · exact .pure ⟨rfl, rfl, rfl, rfl⟩

/-- What was handled after a statement was taken from the queue, last one first. -/
def record (t : Setting) (id : StatementId) (handled : List StatementId) : List StatementId :=
  if (t.program.statement? id).isSome then id :: handled else handled

@[simp] theorem mem_record {id k : StatementId} {handled : List StatementId} :
    k ∈ record t id handled ↔ k ∈ handled ∨ k = id ∧ (t.program.statement? id).isSome := by
  unfold record
  split <;> simp_all [or_comm]

theorem record_append (t : Setting) (id : StatementId) (run base : List StatementId) :
    record t id (run ++ base) = record t id run ++ base := by
  unfold record
  split <;> rfl

/-- What a statement that was taken from the queue leaves: it is handled if it can be looked up, and goes on to its
successors when it is reached first. -/
structure Processed (t : Setting) (id : StatementId) (s : BuildState) (expand : Bool) (s' : BuildState) : Prop where
  handled : s'.handled = record t id s.handled
  left : ∀ statement, t.program.statement? id = some statement → s'.graph.Handled t statement
  recalled : ∀ statement, t.program.statement? id = some statement → Recalled statement s.pairing s'
  unknown : t.program.statement? id = none → s'.pairing = s.pairing
  first : (t.program.statement? id).isSome → id ∉ s.gate.counts.keys → expand
  known : expand → (t.program.statement? id).isSome
  gate : ∀ k ∈ s'.gate.counts.keys, k ∈ s.gate.counts.keys ∨ k = id ∧ (t.program.statement? id).isSome

theorem ends_process (hs : s.Sound t) {id : StatementId} (hreach : t.program.Reaches id) :
    (proceeding t).Ends s (process t id) (Processed t id s) t.Rejects := by
  refine .bind (ends_lookUp t.program id) ?_
  rintro r s₁ hl₁ ⟨rfl, hpairing₁, hgate₁, hhandled₁⟩
  cases hstatement : t.program.statement? id with
  | none =>
      refine .bind (ends_of_visiting (ends_count _)) ?_
      rintro _ s₂ _ ⟨hpairing₂, hgate₂, hhandled₂⟩
      refine .pure ⟨?_, ?_, ?_, fun _ => hpairing₂.trans hpairing₁, ?_, nofun, fun k hk => .inl ?_⟩
      · simp [hhandled₂, hhandled₁, record, hstatement]
      · simp [hstatement]
      · simp [hstatement]
      · simp [hstatement]
      · rwa [hgate₂, hgate₁] at hk
  | some statement =>
      refine .get_bind ?_
      rw [hgate₁]
      rcases harrive : s.gate.arrive id (t.program.predecessorCount id) with ⟨expand, gate⟩
      have hfirst : id ∉ s.gate.counts.keys → expand := by
        intro hnew
        have hfirst := Gate.arrive_first (t.program.predecessorCount id) hnew
        rwa [harrive] at hfirst
      have hkeys : ∀ k ∈ gate.counts.keys, k ∈ s.gate.counts.keys ∨ k = id := by
        intro k hk
        refine Gate.mem_keys_arrive (n := t.program.predecessorCount id) ?_
        rwa [harrive]
      refine .bind (Q := fun _ s' => s'.pairing = s₁.pairing ∧ s'.gate = gate ∧ s'.handled = id :: s₁.handled)
        (.modify ⟨.refl _, fun hs => ⟨hs.graph, hs.pairing⟩, List.subset_cons_self _ _, fun hc => hc⟩
          ⟨rfl, rfl, rfl⟩) ?_
      rintro _ s₂ hl₂ ⟨hpairing₂, hgate₂, hhandled₂⟩
      have hruns := hreach.runs hstatement
      have hvisit := ends_of_visiting (ends_visit_recalled hruns (hl₂.sound (hl₁.sound hs)))
      refine .bind (hvisit.mono (fun _ hl => hl) (fun _ _ _ hq => hq) fun _ he => .of_refused hruns he) ?_
      rintro _ s₃ hl₃ ⟨⟨hleft, hrecalled⟩, hgate₃, hhandled₃⟩
      rw [hpairing₂, hpairing₁] at hrecalled
      have hprocessed : ∀ s' : BuildState, s₃.graph.Extends s'.graph → s'.pairing = s₃.pairing → s'.gate = s₃.gate →
          s'.handled = s₃.handled → Processed t id s expand s' := by
        intro s' hext hpairing hgate hhandled
        rw [hgate₃, hgate₂] at hgate
        rw [hhandled₃, hhandled₂, hhandled₁] at hhandled
        refine ⟨?_, ?_, ?_, by simp [hstatement], fun _ => hfirst, by simp [hstatement], fun k hk => ?_⟩
        · simp [hhandled, record, hstatement]
        · intro statement' hstatement'
          cases hstatement.symm.trans hstatement'
          exact hleft.mono hext
        · intro statement' hstatement'
          cases hstatement.symm.trans hstatement'
          exact hrecalled.mono hext hpairing
        · exact (hkeys k (hgate ▸ hk)).imp_right fun hk => ⟨hk, by simp [hstatement]⟩
      dsimp only
      split
      · refine .bind (ends_of_visiting (ends_count _)) ?_
        rintro _ s₄ hl₄ ⟨hpairing₄, hgate₄, hhandled₄⟩
        exact .pure (hprocessed s₄ hl₄.graph hpairing₄ hgate₄ hhandled₄)
      · exact .pure (hprocessed s₃ (.refl _) rfl rfl rfl)

end Build

end SinkFlow
