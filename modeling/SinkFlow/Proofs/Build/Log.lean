import SinkFlow.Proofs.Build.Coverage
import SinkFlow.Proofs.Build.Operations
import SinkFlow.Proofs.Build.Run

/-!
Builds by the list of the statements that they handle. What every statement keeps as it is handled, together with the
list of those before it, holds in the end of the graph and of the whole list.
-/

namespace SinkFlow

namespace Build

variable {t : Setting} {I : List StatementId → FlowGraph → Prop}

/-- A property of the statements that were handled and of the graph is kept if every statement that can be looked up
keeps it. -/
theorem logged_process
    (hvisit : ∀ id statement log s s', t.program.statement? id = some statement → I log s.graph →
      (visit t statement).run s = (.ok (), s') → I (id :: log) s'.graph) (id : StatementId) :
    Keeps (fun s => I s.handled s.graph) (process t id) := by
  have hlookUp : Ensures (fun s => I s.handled s.graph) (lookUp t.program id) fun r s =>
      I s.handled s.graph ∧ t.program.statement? id = r := by
    unfold lookUp
    dsimp only
    split
    · exact .bind (.keeps_modify fun _ hs => hs) fun _ => .pure fun _ hs => ⟨hs, rfl⟩
    · exact .pure fun _ hs => ⟨hs, rfl⟩
  refine .bind_of hlookUp fun r hr => ?_
  cases r with
  | none => exact .bind (.keeps_modify fun _ hs => hs) fun _ => .keeps_pure
  | some statement =>
      refine .get_bind fun s _ => ?_
      rcases s.gate.arrive id (t.program.predecessorCount id) with ⟨expand, gate⟩
      refine .bind (Q := fun _ s => ∃ log, s.handled = id :: log ∧ I log s.graph) ?_ fun _ => ?_
      · rintro s _ s' hs ⟨⟩
        exact ⟨s.handled, rfl, hs⟩
      refine .bind (Q := fun _ s => I s.handled s.graph) ?_ fun _ => ?_
      · rintro s _ s' ⟨log, hlog, hs⟩ hrun
        -- The visit itself leaves the list alone.
        have hhandled := (performs_visit t statement).handled s
        rw [hrun] at hhandled
        rw [hhandled, hlog]
        exact hvisit id statement log s s' hr hs hrun
      · dsimp only
        split
        · exact .bind (.keeps_modify fun _ hs => hs) fun _ => .keeps_pure
        · exact .keeps_pure

end Build

/-- What holds of a new graph, and is kept by every statement that is handled, holds of the graph that a successful
build leaves and of the list of the statements that it handled, last one first. -/
theorem FlowGraph.build_logged {I : List StatementId → FlowGraph → Prop} {e : EntrypointId} {t : Setting}
    {cancelled : Bool} {stats : BuildStats} (hstart : I [] { entrypoint := e, phase := .building })
    (hvisit : ∀ id statement log s s', t.program.statement? id = some statement → I log s.graph →
      (Build.visit t statement).run s = (.ok (), s') → I (id :: log) s'.graph)
    (hok : (({ entrypoint := e } : FlowGraph).build t cancelled).result = .ok stats) :
    I (({ entrypoint := e } : FlowGraph).handledBy t cancelled)
      (({ entrypoint := e } : FlowGraph).build t cancelled).graph := by
  let s₀ : BuildState := { graph := { entrypoint := e }, cancelled }
  have hcomplete : Ensures (· = s₀) (Build.complete t) fun _ s => I s.handled s.graph := by
    refine .bind (Q := fun _ s => I s.handled s.graph) ?_ fun _ => ?_
    · rintro s _ s' rfl ⟨⟩
      exact hstart
    refine .bind (.keeps_modify fun _ hs => hs) fun _ => .bind ?_ fun _ => .get_bind fun _ _ => .keeps_pure
    exact Build.keeps_runRoots (Build.logged_process hvisit) (fun _ hs => hs) (fun _ => .keeps_modify fun _ hs => hs) _
  rcases hrun : (Build.complete t).run s₀ with ⟨r, s'⟩
  obtain ⟨hbuild, hhandled⟩ := build_eq hrun
  rw [hbuild] at hok ⊢
  rw [hhandled]
  cases hok
  exact hcomplete s₀ stats s' rfl hrun

/-- A build that is not stopped handles the statements that can be reached and looked up, and no other ones. -/
theorem FlowGraph.mem_handledBy_iff {e : EntrypointId} {t : Setting} {cancelled : Bool} {stats : BuildStats}
    (hok : (({ entrypoint := e } : FlowGraph).build t cancelled).result = .ok stats)
    (hrunning : stats.cancelled = false) (id : StatementId) :
    id ∈ ({ entrypoint := e } : FlowGraph).handledBy t cancelled ↔
      t.program.Reaches id ∧ (t.program.statement? id).isSome := by
  rcases build_cases e t cancelled with ⟨stats', hok', _, _, hhandled⟩ | ⟨err, herror, _⟩
  · cases hok.symm.trans hok'
    exact (hhandled (.inr hrunning)).1 id
  · cases hok.symm.trans herror

end SinkFlow
