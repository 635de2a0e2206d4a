import SinkFlow.Proofs.Build.Coverage
import SinkFlow.Proofs.Program

/-!
Which parameters and results are paired across calls. If an edge leads from a statement that passes a parameter to one
that receives it, then some run handles both. They are paired if a run comes to the first one first and to no other
statement that receives the parameter in between. Likewise for results, unless another result is returned in between.
-/

namespace SinkFlow

namespace FlowGraph

section Edges

variable {e : EntrypointId} {t : Setting} {cancelled : Bool} {stats : BuildStats}
  (hok : (({ entrypoint := e } : FlowGraph).build t cancelled).result = .ok stats)

include hok

/-- The two ends of an edge are handled in one run: the one that first comes to where the edge begins. -/
theorem edge_together (hrunning : stats.cancelled = false) {id next : StatementId} (hreach : t.program.Reaches id)
    (hid : (t.program.statement? id).isSome) (hnext : (t.program.statement? next).isSome)
    (hedge : next ∈ t.program.successors id) :
    ∃ run ∈ ({ entrypoint := e } : FlowGraph).runsBy t cancelled, id ∈ run ∧ next ∈ run := by
  obtain ⟨hlog, hhistory⟩ := build_history hok
  rcases build_cases e t cancelled with ⟨stats', hok', _, _, hhandled⟩ | ⟨err, herror, _⟩
  · cases hok.symm.trans hok'
    have hmem := ((hhandled (.inr hrunning)).1 id).mpr ⟨hreach, hid⟩
    obtain ⟨run, hrun, hid, hall⟩ := hhistory.together (hlog ▸ hmem)
    exact ⟨run, hrun, hid, hall next hedge hnext⟩
  · cases hok.symm.trans herror

/-- A value that is sent and then received in a run, with the channel not cleared in between, is paired. -/
theorem channel_paired {id next : StatementId} {sender receiver : Statement} {channel : Channel}
    {sent received : ValueSlot} (hsender : t.program.statement? id = some sender)
    (hreceiver : t.program.statement? next = some receiver) (hsent : sender.sent? = some (channel, sent))
    (hreceived : receiver.received? = some (channel, received)) {newer between older : List StatementId}
    (hrun : newer ++ next :: (between ++ id :: older) ∈ ({ entrypoint := e } : FlowGraph).runsBy t cancelled)
    (hkept : ∀ id ∈ between, ¬ t.Clears channel id) :
    (({ entrypoint := e } : FlowGraph).build t cancelled).graph.Equated receiver.procedure received
      sender.procedure sent := by
  obtain ⟨_, hrun⟩ := (build_history hok).2.exists_run hrun
  have hpending : t.Pending channel sender.procedure sent (between ++ id :: older) :=
    .append (.sent hsender hsent) hkept
  exact hrun.paired newer next _ rfl receiver channel received hreceiver hreceived _ _ hpending

end Edges

/-! ## Parameters -/

/-- If an edge leads from a statement that passes a parameter to one that receives it, then some run of the build
handles both. Whenever a run handles the first one first, and none in between that receives the parameter, there is a
constraint between what is received and what is passed, unless they are one node. -/
theorem parameter_edges_paired {e : EntrypointId} {t : Setting} {cancelled : Bool} {stats : BuildStats}
    {p q : ProcedureId} {caller callee : StatementId} {index : UInt64} {actual formal : ValueSlot}
    (hok : (({ entrypoint := e } : FlowGraph).build t cancelled).result = .ok stats)
    (hrunning : stats.cancelled = false) (hcaller : t.program.Runs p caller (.paramCaller q index actual))
    (hcallee : t.program.statement? callee = some ⟨callee, q, .paramCallee index formal⟩)
    (hedge : callee ∈ t.program.successors caller) :
    let runs := ({ entrypoint := e } : FlowGraph).runsBy t cancelled
    (∃ run ∈ runs, caller ∈ run ∧ callee ∈ run) ∧
      ∀ run ∈ runs, ∀ newer between older, run = newer ++ callee :: (between ++ caller :: older) →
        (∀ id ∈ between, ∀ value, t.program.statement? id ≠ some ⟨id, q, .paramCallee index value⟩) →
          (({ entrypoint := e } : FlowGraph).build t cancelled).graph.Equated q formal p actual := by
  refine ⟨edge_together hok hrunning hcaller.1 (by simp [hcaller.2]) (by simp [hcallee]) hedge, ?_⟩
  rintro _ hrun newer between older rfl hbetween
  refine channel_paired hok hcaller.2 hcallee rfl rfl hrun ?_
  rintro id hid ⟨statement, hstatement, hclears⟩
  obtain ⟨value, hvalue⟩ := Statement.exists_of_cleared_parameter hclears
  cases t.program.id_of_statement? hstatement
  exact hbetween statement.id hid value (hvalue ▸ hstatement)

/-- A program that calls a procedure twice before it comes to what that procedure receives. -/
def joinedCallsProgram : Program := GraphDocument.program
  { statements := [⟨0, 0, .paramCaller 2 0 5⟩, ⟨1, 1, .paramCaller 2 0 6⟩, ⟨2, 2, .paramCallee 0 3⟩]
    edges := [(0, 1), (0, 2), (1, 2)] }

theorem joinedCallsProgram_paired :
    let g := (({ entrypoint := 0 } : FlowGraph).build ⟨joinedCallsProgram, {}, {}⟩ false).graph
    ({ entrypoint := 0 } : FlowGraph).runsBy ⟨joinedCallsProgram, {}, {}⟩ false = [[2, 1, 0]] ∧
      g.Equated 2 3 0 5 ∧ g.Equated 2 3 1 6 := by
  have hruns : ({ entrypoint := 0 } : FlowGraph).runsBy ⟨joinedCallsProgram, {}, {}⟩ false = [[2, 1, 0]] := by
    decide +kernel
  have hrun : [2, 1, 0] ∈ ({ entrypoint := 0 } : FlowGraph).runsBy ⟨joinedCallsProgram, {}, {}⟩ false := by
    simp [hruns]
  have hresult : (({ entrypoint := 0 } : FlowGraph).build ⟨joinedCallsProgram, {}, {}⟩ false).result.toOption.map
      BuildStats.cancelled = some false := by
    decide +kernel
  obtain ⟨stats, hok, hrunning⟩ := BuildOutcome.exists_running hresult
  have hfirst : joinedCallsProgram.Runs 0 0 (.paramCaller 2 0 5) := ⟨.root (by decide +kernel), by decide +kernel⟩
  have hsecond : joinedCallsProgram.Runs 1 1 (.paramCaller 2 0 6) :=
    ⟨.edge hfirst.1 (by decide +kernel) (by decide +kernel), by decide +kernel⟩
  have hcallee : joinedCallsProgram.statement? 2 = some ⟨2, 2, .paramCallee 0 3⟩ := by decide +kernel
  refine ⟨hruns, ?_, ?_⟩
  · refine (parameter_edges_paired hok hrunning hfirst hcallee (by decide +kernel)).2 _ hrun [] [1] [] rfl ?_
    rintro _ (_ | ⟨_, ⟨⟩⟩) value hvalue
    cases hsecond.2.symm.trans hvalue
  · exact (parameter_edges_paired hok hrunning hsecond hcallee (by decide +kernel)).2 _ hrun [] [] [0] rfl nofun

/-- A program in which one call is only reached after the parameter was received, and the parameter is received twice
after another one. -/
def lateCallProgram : Program := GraphDocument.program
  { statements :=
      [⟨0, 0, .normal .other⟩, ⟨1, 0, .paramCaller 1 0 5⟩, ⟨2, 0, .normal .other⟩, ⟨3, 0, .paramCaller 1 0 6⟩,
        ⟨4, 1, .paramCallee 0 2⟩, ⟨5, 1, .paramCallee 0 3⟩]
    edges := [(0, 1), (0, 2), (2, 3), (1, 4), (3, 4), (1, 5)] }

/-- Of its three edges between calls and what is received, the one from the late call and the one to where the
parameter is received again are not paired. -/
theorem lateCallProgram_unpaired :
    let t : Setting := ⟨lateCallProgram, {}, {}⟩
    let outcome := ({ entrypoint := 0 } : FlowGraph).build t false
    (∃ stats, outcome.result = .ok stats ∧ stats.cancelled = false) ∧
      ({ entrypoint := 0 } : FlowGraph).runsBy t false = [[3, 5, 4, 2, 1, 0]] ∧
      (t.program.Runs 0 3 (.paramCaller 1 0 6) ∧ t.program.statement? 4 = some ⟨4, 1, .paramCallee 0 2⟩ ∧
        4 ∈ t.program.successors 3 ∧ ¬ outcome.graph.Equated 1 2 0 6) ∧
      t.program.Runs 0 1 (.paramCaller 1 0 5) ∧ t.program.statement? 5 = some ⟨5, 1, .paramCallee 0 3⟩ ∧
        5 ∈ t.program.successors 1 ∧ ¬ outcome.graph.Equated 1 3 0 5 := by
  intro t outcome
  have hroot : t.program.Reaches 0 := .root (by decide +kernel)
  have hearly : t.program.Reaches 1 := .edge hroot (by decide +kernel) (by decide +kernel)
  have hmiddle : t.program.Reaches 2 := .edge hroot (by decide +kernel) (by decide +kernel)
  have hlate : t.program.Reaches 3 := .edge hmiddle (by decide +kernel) (by decide +kernel)
  refine ⟨BuildOutcome.exists_running ?_, ?_, ⟨⟨hlate, ?_⟩, ?_, ?_, ?_⟩, ⟨hearly, ?_⟩, ?_, ?_, ?_⟩
  all_goals decide +kernel

/-! ## Results -/

/-- If an edge leads from a statement that returns a result to one that receives it, then some run of the build handles
both. Whenever a run handles the first one first, and none in between that returns from the same procedure, there is a
constraint between what is received and what is returned, unless they are one node. -/
theorem result_edges_paired {e : EntrypointId} {t : Setting} {cancelled : Bool} {stats : BuildStats}
    {p q : ProcedureId} {callee caller : StatementId} {returned received : ValueSlot}
    (hok : (({ entrypoint := e } : FlowGraph).build t cancelled).result = .ok stats)
    (hrunning : stats.cancelled = false) (hcallee : t.program.Runs q callee (.normalReturnCallee returned))
    (hcaller : t.program.statement? caller = some ⟨caller, p, .normalReturnCaller q received⟩)
    (hedge : caller ∈ t.program.successors callee) :
    let runs := ({ entrypoint := e } : FlowGraph).runsBy t cancelled
    (∃ run ∈ runs, callee ∈ run ∧ caller ∈ run) ∧
      ∀ run ∈ runs, ∀ newer between older, run = newer ++ caller :: (between ++ callee :: older) →
        (∀ id ∈ between, ∀ kind, t.program.statement? id = some ⟨id, q, kind⟩ → kind.returned? = none) →
          (({ entrypoint := e } : FlowGraph).build t cancelled).graph.Equated p received q returned := by
  refine ⟨edge_together hok hrunning hcallee.1 (by simp [hcallee.2]) (by simp [hcaller]) hedge, ?_⟩
  rintro _ hrun newer between older rfl hbetween
  refine channel_paired hok hcallee.2 hcaller rfl rfl hrun ?_
  rintro id hid ⟨statement, hstatement, hclears⟩
  obtain ⟨rfl, hreturned⟩ := Statement.returned?_of_cleared_result hclears
  cases t.program.id_of_statement? hstatement
  have hnone := hbetween statement.id hid statement.kind hstatement
  simp [hnone] at hreturned

/-- A program in which two statements receive one result and a third one receives the next. -/
def repeatedReturnProgram : Program := GraphDocument.program
  { statements :=
      [⟨0, 1, .normalReturnCallee 3⟩, ⟨1, 0, .normalReturnCaller 1 5⟩, ⟨2, 0, .normalReturnCaller 1 6⟩,
        ⟨3, 1, .normalReturnCallee 4⟩, ⟨4, 0, .normalReturnCaller 1 7⟩]
    edges := [(0, 1), (0, 2), (2, 3), (3, 4)] }

theorem repeatedReturnProgram_paired :
    let g := (({ entrypoint := 0 } : FlowGraph).build ⟨repeatedReturnProgram, {}, {}⟩ false).graph
    ({ entrypoint := 0 } : FlowGraph).runsBy ⟨repeatedReturnProgram, {}, {}⟩ false = [[4, 3, 2, 1, 0]] ∧
      g.Equated 0 6 1 3 ∧ g.Equated 0 7 1 4 := by
  have hruns : ({ entrypoint := 0 } : FlowGraph).runsBy ⟨repeatedReturnProgram, {}, {}⟩ false = [[4, 3, 2, 1, 0]] := by
    decide +kernel
  have hrun : [4, 3, 2, 1, 0] ∈ ({ entrypoint := 0 } : FlowGraph).runsBy ⟨repeatedReturnProgram, {}, {}⟩ false := by
    simp [hruns]
  have hresult : (({ entrypoint := 0 } : FlowGraph).build ⟨repeatedReturnProgram, {}, {}⟩ false).result.toOption.map
      BuildStats.cancelled = some false := by
    decide +kernel
  obtain ⟨stats, hok, hrunning⟩ := BuildOutcome.exists_running hresult
  have hfirst : repeatedReturnProgram.Runs 1 0 (.normalReturnCallee 3) := ⟨.root (by decide +kernel), by decide +kernel⟩
  have hreach : repeatedReturnProgram.Reaches 2 := .edge hfirst.1 (by decide +kernel) (by decide +kernel)
  have hnext : repeatedReturnProgram.Runs 1 3 (.normalReturnCallee 4) :=
    ⟨.edge hreach (by decide +kernel) (by decide +kernel), by decide +kernel⟩
  have hbetween : repeatedReturnProgram.statement? 1 = some ⟨1, 0, .normalReturnCaller 1 5⟩ := by decide +kernel
  have hcaller : repeatedReturnProgram.statement? 2 = some ⟨2, 0, .normalReturnCaller 1 6⟩ := by decide +kernel
  have hlast : repeatedReturnProgram.statement? 4 = some ⟨4, 0, .normalReturnCaller 1 7⟩ := by decide +kernel
  refine ⟨hruns, ?_, ?_⟩
  · refine (result_edges_paired hok hrunning hfirst hcaller (by decide +kernel)).2 _ hrun [4, 3] [1] [] rfl ?_
    rintro _ (_ | ⟨_, ⟨⟩⟩) kind hkind
    cases hbetween.symm.trans hkind
  · exact (result_edges_paired hok hrunning hnext hlast (by decide +kernel)).2 _ hrun [] [] [2, 1, 0] rfl nofun

/-- A program that comes to one statement that receives a result before any is returned, and to another one after two
were. -/
def earlyReceiverProgram : Program := GraphDocument.program
  { statements :=
      [⟨0, 0, .normal .other⟩, ⟨1, 0, .normalReturnCaller 1 5⟩, ⟨2, 1, .normalReturnCallee 3⟩,
        ⟨3, 1, .normalReturnCallee 4⟩, ⟨4, 0, .normalReturnCaller 1 6⟩]
    edges := [(0, 1), (0, 2), (0, 3), (2, 1), (2, 4), (3, 4)] }

/-- Neither of the two edges from the first result is paired. -/
theorem earlyReceiverProgram_unpaired :
    let t : Setting := ⟨earlyReceiverProgram, {}, {}⟩
    let outcome := ({ entrypoint := 0 } : FlowGraph).build t false
    (∃ stats, outcome.result = .ok stats ∧ stats.cancelled = false) ∧
      ({ entrypoint := 0 } : FlowGraph).runsBy t false = [[4, 3, 2, 1, 0]] ∧
      t.program.Runs 1 2 (.normalReturnCallee 3) ∧
      (t.program.statement? 1 = some ⟨1, 0, .normalReturnCaller 1 5⟩ ∧ 1 ∈ t.program.successors 2 ∧
        ¬ outcome.graph.Equated 0 5 1 3) ∧
      t.program.statement? 4 = some ⟨4, 0, .normalReturnCaller 1 6⟩ ∧ 4 ∈ t.program.successors 2 ∧
        ¬ outcome.graph.Equated 0 6 1 3 := by
  intro t outcome
  have hroot : t.program.Reaches 0 := .root (by decide +kernel)
  have hreturn : t.program.Reaches 2 := .edge hroot (by decide +kernel) (by decide +kernel)
  refine ⟨BuildOutcome.exists_running ?_, ?_, ⟨hreturn, ?_⟩, ⟨?_, ?_, ?_⟩, ?_, ?_, ?_⟩
  all_goals decide +kernel

end FlowGraph

end SinkFlow
