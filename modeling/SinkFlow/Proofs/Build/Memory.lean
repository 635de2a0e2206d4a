import SinkFlow.Proofs.Build.Visit

/-!
What passes from one statement of a run to another. Parameters and results pass over channels: a statement sends a
value, which is remembered until the channel is cleared, and a statement that receives is related to all that is
remembered by then. A parameter is cleared where it is received, a result where the next one is returned.
-/

namespace SinkFlow

/-- A way for values to pass from one procedure to another one. -/
inductive Channel where
  | parameter (callee : ProcedureId) (index : UInt64)
  | result (procedure : ProcedureId)
  deriving DecidableEq

namespace Statement

/-- The channel over which a statement sends a value of its procedure. -/
def sent? (statement : Statement) : Option (Channel × ValueSlot) :=
  match statement.kind with
  | .paramCaller callee index value => some (.parameter callee index, value)
  | kind => kind.returned?.map fun value => (.result statement.procedure, value)

/-- The channel over which a statement receives a value of its procedure. -/
def received? (statement : Statement) : Option (Channel × ValueSlot) :=
  match statement.kind with
  | .paramCallee index value => some (.parameter statement.procedure index, value)
  | .normalReturnCaller callee value => some (.result callee, value)
  | _ => none

/-- The channel on which a statement leaves nothing of what was sent before. -/
def cleared? (statement : Statement) : Option Channel :=
  match statement.kind with
  | .paramCallee index _ => some (.parameter statement.procedure index)
  | kind => kind.returned?.map fun _ => .result statement.procedure

variable {statement : Statement}

theorem exists_of_cleared_parameter {q : ProcedureId} {index : UInt64}
    (h : statement.cleared? = some (.parameter q index)) :
    ∃ value, statement = ⟨statement.id, q, .paramCallee index value⟩ := by
  obtain ⟨id, p, kind⟩ := statement
  unfold cleared? at h
  split at h
  · rename_i value hkind
    cases h
    cases hkind
    exact ⟨value, rfl⟩
  · simp at h

theorem returned?_of_cleared_result {q : ProcedureId} (h : statement.cleared? = some (.result q)) :
    statement.procedure = q ∧ statement.kind.returned?.isSome := by
  unfold cleared? at h
  split at h
  · cases h
  · obtain ⟨value, hvalue, hresult⟩ := Option.map_eq_some_iff.mp h
    exact ⟨Channel.result.inj hresult, Option.isSome_of_eq_some hvalue⟩

end Statement

/-- What is remembered of a channel. -/
def Pairing.recalled (p : Pairing) : Channel → List (NodeId × StatementRef)
  | .parameter callee index => (p.parameters.get? (callee, index)).getD []
  | .result procedure => (p.returns.get? procedure).toList

namespace Build

variable {α : Type} {t : Setting} {s s' : BuildState} {E : AnalysisError → Prop} {statement : Statement}
  {channel : Channel} {slot : ValueSlot} {a : NodeId × StatementRef} {here : StatementRef} {q : ProcedureId}

/-! ## What is kept -/

/-- A value is remembered of a channel. -/
def Recalls (channel : Channel) (a : NodeId × StatementRef) (s : BuildState) : Prop := a ∈ s.pairing.recalled channel

theorem recalls_edit (x : Edit α) : Keeps (Recalls channel a) (edit x) := by
  intro s r s' hs hrun
  rcases hx : x.run s.graph with ⟨r', g⟩
  rw [run_edit hx] at hrun
  cases hrun
  exact hs

theorem recalls_count (f : BuildStats → BuildStats) : Keeps (Recalls channel a) (count f) :=
  .keeps_modify fun _ hs => hs

theorem recalls_remember {f : Pairing → Pairing}
    (h : ∀ p : Pairing, a ∈ p.recalled channel → a ∈ (f p).recalled channel) :
    Keeps (Recalls channel a) (remember f) :=
  .keeps_modify fun s hs => h s.pairing hs

theorem recalls_unify (field : FieldSignature) (view : NodeId) (path : Path) :
    Keeps (Recalls channel a) (unify field view path) := by
  refine .get_bind fun _ _ => .bind (.forM fun _ _ => recalls_edit _) fun _ => recalls_remember fun p hp => ?_
  cases channel with
  | parameter callee index => exact hp
  | result procedure => exact hp

theorem recalls_relateSlots (p : Program) (q : ProcedureId) (target : ValueSlot) (kind : ConstraintKind)
    (source : ValueSlot) (path : Path) : Keeps (Recalls channel a) (relateSlots p q target kind source path) :=
  recalls_edit _

/-- A result takes the place of the one before, and of no other value. -/
theorem recalls_returned (h : channel ≠ .result q) (p : Program) :
    Keeps (Recalls channel a) (returned p q slot here) := by
  refine .bind (recalls_edit _) fun n => recalls_remember fun r hr => ?_
  cases channel with
  | parameter callee index => exact hr
  | result procedure =>
      have hne : procedure ≠ q := fun hq => h (hq ▸ rfl)
      simpa [Pairing.recalled, Table.get?_insert, hne] using hr

theorem recalls_visitCall (site : CallSite) : Keeps (Recalls channel a) (visitCall t site) := by
  unfold visitCall
  refine .bind (recalls_edit _) fun _ => ?_
  split
  · exact .bind (recalls_edit _) fun _ => recalls_count _
  · exact .keeps_pure

theorem recalls_visitInstruction {instruction : Instruction}
    (h : ∀ value, instruction = .return (some value) → channel ≠ .result q) :
    Keeps (Recalls channel a) (visitInstruction t q here instruction) := by
  cases instruction with
  | getField _ _ _ | putField _ _ _ =>
      refine .bind (recalls_edit _) fun _ => .bind (recalls_edit _) fun _ => .bind (recalls_edit _) fun _ => ?_
      exact .bind (recalls_edit _) fun _ => recalls_unify _ _ _
  | checkCast _ _ | arrayLoad _ _ | arrayStore _ _ => exact recalls_relateSlots _ _ _ _ _ _
  | binaryOp target left right =>
      exact .bind (recalls_relateSlots _ _ _ _ _ _) fun _ => recalls_relateSlots _ _ _ _ _ _
  | invoke call => exact recalls_visitCall _
  | «return» value =>
      cases value with
      | none => exact .keeps_pure
      | some value => exact recalls_returned (h value rfl) _
  | new _ | instanceOf _ _ | other => exact .keeps_pure

theorem recalls_visitHeap (location : HeapLocation) : Keeps (Recalls channel a) (visitHeap t q here location) := by
  unfold visitHeap
  split
  · exact .keeps_pure
  · split
    · exact .keeps_pure
    · exact .bind (recalls_edit _) fun _ => recalls_unify _ _ _

/-- What is remembered of a channel stays remembered until the channel is cleared. -/
theorem recalls_visit (h : statement.cleared? ≠ some channel) : Keeps (Recalls channel a) (visit t statement) := by
  obtain ⟨id, q, kind⟩ := statement
  refine .get_bind fun s _ => ?_
  cases kind with
  | phi target operands => exact .bind (recalls_edit _) fun _ => .forM fun _ _ => recalls_edit _
  | normal instruction =>
      refine recalls_visitInstruction fun value hvalue hchannel => h ?_
      rw [hvalue, hchannel]
      rfl
  | paramCaller callee index value =>
      refine .bind (recalls_edit _) fun n => recalls_remember fun p hp => ?_
      cases channel with
      | parameter callee' index' =>
          simp only [Pairing.recalled, Table.get?_insert] at hp ⊢
          split
          · rename_i hk
            exact List.mem_append_left _ (hk ▸ hp)
          · exact hp
      | result procedure => exact hp
  | paramCallee index value =>
      refine .bind (recalls_edit _) fun n => .get_bind fun s _ => ?_
      refine .bind (recalls_remember fun p hp => ?_) fun _ => .forM fun _ _ => recalls_edit _
      cases channel with
      | parameter callee' index' =>
          have hne : ¬ (callee', index') = (q, index) := by
            rintro ⟨⟩
            exact h rfl
          simpa only [Pairing.recalled, Table.get?_erase, if_neg hne] using hp
      | result procedure => exact hp
  | normalReturnCaller callee value =>
      refine .bind (recalls_edit _) fun n => .get_bind fun s _ => ?_
      split
      · exact recalls_edit _
      · exact recalls_count _
  | normalReturnCallee value =>
      refine recalls_returned ?_ _
      rintro rfl
      exact h rfl
  | heapParamCallee location | heapReturnCaller location | heapReturnCallee location => exact recalls_visitHeap _

/-! ## What is sent and received -/

/-- What a statement does to what a run remembers. -/
structure Recalled (statement : Statement) (p : Pairing) (s' : BuildState) : Prop where
  keeps : ∀ channel, statement.cleared? ≠ some channel → p.recalled channel ⊆ s'.pairing.recalled channel
  sends : ∀ channel slot, statement.sent? = some (channel, slot) →
    ∃ a ∈ s'.pairing.recalled channel, s'.graph.valueNode? statement.procedure slot = some a.1
  receives : ∀ channel slot, statement.received? = some (channel, slot) →
    ∀ a ∈ p.recalled channel, s'.graph.Equates statement.procedure slot a.1

theorem Recalled.mono {p : Pairing} {s'' : BuildState} (h : s'.graph.Extends s''.graph)
    (hsame : s''.pairing = s'.pairing) (hr : Recalled statement p s') : Recalled statement p s'' where
  keeps channel hkept := hsame ▸ hr.keeps channel hkept
  sends channel slot hsent := by
    obtain ⟨a, ha, hn⟩ := hr.sends channel slot hsent
    exact ⟨a, hsame ▸ ha, h.values _ _ _ hn⟩
  receives channel slot hreceived a ha := (hr.receives channel slot hreceived a ha).mono h

variable (hruns : t.program.Runs statement.procedure statement.id statement.kind)

include hruns

theorem ends_sends (hsent : statement.sent? = some (channel, slot)) :
    (visiting t).Ends s (visit t statement)
      (fun _ s' => ∃ a ∈ s'.pairing.recalled channel, s'.graph.valueNode? statement.procedure slot = some a.1) E := by
  obtain ⟨id, q, kind⟩ := statement
  refine .get_bind ?_
  have hhere : StatementRef.Names ⟨s.graph.entrypoint, id⟩ t s.graph q kind := ⟨rfl, hruns⟩
  have hreturned : ∀ {value : ValueSlot}, kind.returned? = some value →
      (visiting t).Ends s (returned t.program q value ⟨s.graph.entrypoint, id⟩)
        (fun _ s' => ∃ a ∈ s'.pairing.recalled (.result q), s'.graph.valueNode? q value = some a.1) E :=
    fun hvalue => (ends_returned hhere hvalue).imp fun _ s' _ ⟨a, ha, hn⟩ => ⟨a, by simp [Pairing.recalled, ha], hn⟩
  cases kind with
  | paramCaller callee index value =>
      cases hsent
      exact ends_passed hhere
  | normal instruction =>
      cases instruction with
      | «return» value =>
          cases value with
          | none => cases hsent
          | some value =>
              cases hsent
              exact hreturned rfl
      | _ => cases hsent
  | normalReturnCallee value =>
      cases hsent
      exact hreturned rfl
  | _ => cases hsent

theorem ends_receives (hs : s.Sound t) (hreceived : statement.received? = some (channel, slot)) :
    (visiting t).Ends s (visit t statement)
      (fun _ s' => ∀ a ∈ s.pairing.recalled channel, s'.graph.Equates statement.procedure slot a.1) E := by
  obtain ⟨id, q, kind⟩ := statement
  refine .get_bind ?_
  have hhere : StatementRef.Names ⟨s.graph.entrypoint, id⟩ t s.graph q kind := ⟨rfl, hruns⟩
  cases kind with
  | paramCallee index value =>
      cases hreceived
      exact ends_visitParameter hs hhere
  | normalReturnCaller callee value =>
      cases hreceived
      exact (ends_received hs hhere).imp fun _ _ _ h a ha => h a (by simpa [Pairing.recalled] using ha)
  | _ => cases hreceived

/-- A statement that can be reached leaves what it has to, in the graph and for the statements after it. -/
theorem ends_visit_recalled (hs : s.Sound t) :
    (visiting t).Ends s (visit t statement)
      (fun _ s' => s'.graph.Handled t statement ∧ Recalled statement s.pairing s') (Refused t statement) := by
  have hvisit := ends_visit hs hruns
  refine .intro (fun _ s' hrun => ?_) fun _ _ hrun => hvisit.of_error hrun
  obtain ⟨hl, hhandled⟩ := hvisit.of_ok hrun
  refine ⟨hl, hhandled, fun channel hkept a ha => ?_, fun channel slot hsent => ?_, fun channel slot hreceived => ?_⟩
  · exact recalls_visit hkept s _ s' ha hrun
  · exact ((ends_sends hruns hsent).of_ok hrun (E := fun _ => True)).2
  · exact ((ends_receives hruns hs hreceived).of_ok hrun (E := fun _ => True)).2

end Build

end SinkFlow
