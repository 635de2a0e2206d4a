import SinkFlow.Proofs.Build.History

/-!
Which statements a build comes to: all that are reachable from a root, unless the analysis is asked to stop. The gate
holds back a statement only when it has let it through before, and the limit of a run suffices, since a run queues no
statement twice.
-/

namespace SinkFlow

namespace Build

variable {t : Setting} {s s' : BuildState} {id root : StatementId} {base run queue visited : List StatementId}

/-- The state after some statements were handled: they can be reached and left what they had to, and the gate only
counts them. -/
structure Covers (t : Setting) (s : BuildState) : Prop where
  sound : s.Sound t
  reach : ∀ id ∈ s.handled, t.program.Reaches id ∧ (t.program.statement? id).isSome
  handled : ∀ id ∈ s.handled, ∀ statement, t.program.statement? id = some statement → s.graph.Handled t statement
  gate : s.gate.counts.keys ⊆ s.handled

theorem Covers.step {expand : Bool} (hc : Covers t s) (hl : Proceeds t s s') (hp : Processed t id s expand s')
    (hreach : t.program.Reaches id) : Covers t s' := by
  have hhandled : ∀ k, k ∈ s'.handled ↔ k ∈ s.handled ∨ k = id ∧ (t.program.statement? id).isSome := by
    simp [hp.handled]
  refine ⟨hl.sound hc.sound, fun k hk => ?_, fun k hk statement hstatement => ?_, fun k hk => ?_⟩
  · rcases (hhandled k).mp hk with hk | ⟨rfl, hknown⟩
    · exact hc.reach k hk
    · exact ⟨hreach, hknown⟩
  · rcases (hhandled k).mp hk with hk | ⟨rfl, _⟩
    · exact (hc.handled k hk statement hstatement).mono hl.graph
    · exact hp.left statement hstatement
  · exact (hhandled k).mpr ((hp.gate k hk).imp_left fun hk => hc.gate hk)

/-- The state between two runs. -/
structure Settled (t : Setting) (s : BuildState) : Prop extends Covers t s where
  history : ∃ runs, s.handled = runs.flatten ∧ History t s.graph runs

/-- Every statement of a list that can be looked up was handled. -/
def Reached (t : Setting) (ids : List StatementId) (s : BuildState) : Prop :=
  ∀ id ∈ ids, (t.program.statement? id).isSome → id ∈ s.handled

/-- Once all roots were handled, the handled statements are those that can be reached. -/
theorem Settled.mem_handled_iff (h : Settled t s) (hroots : Reached t t.program.roots s) :
    id ∈ s.handled ↔ t.program.Reaches id ∧ (t.program.statement? id).isSome := by
  refine ⟨h.reach id, ?_⟩
  rintro ⟨hreach, hknown⟩
  induction hreach with
  | root hroot => exact hroots _ hroot hknown
  | edge _ hid hnext ih =>
      obtain ⟨runs, hlog, hhistory⟩ := h.history
      obtain ⟨run, hrun, _, hall⟩ := hhistory.together (hlog ▸ ih hid)
      rw [hlog]
      exact List.mem_flatten.mpr ⟨run, hrun, hall _ hnext hknown⟩

/-! ## Runs -/

theorem ends_explore {limit : Nat} (hc : Covers t s) (hr : Running t root base run queue visited s)
    (hlimit : UInt32.size + queue.length ≤ limit + visited.length) :
    (proceeding t).Ends s (explore t limit queue visited)
      (fun _ s' => Covers t s' ∧ ∃ run visited, Running t root base run [] visited s') t.Rejects := by
  induction limit generalizing s run queue visited with
  | zero =>
      have hlength := hr.frontier.length_le
      have hempty : queue = [] := List.length_eq_zero_iff.mp (by omega)
      subst hempty
      exact .pure ⟨hc, run, visited, hr⟩
  | succ limit ih =>
      cases queue with
      | nil => exact .pure ⟨hc, run, visited, hr⟩
      | cons id queue =>
          have hreach := hr.frontier.reach id List.mem_cons_self
          rw [explore_cons]
          refine .bind (ends_process hc.sound hreach) fun expand s₁ hl hp => ?_
          refine ih (hc.step hl hp hreach) (hr.step hc.gate hl.graph hp) ?_
          simp only [List.length_append, List.length_cons] at hlimit ⊢
          omega

theorem ends_runRoot (h : Settled t s) (hroot : root ∈ t.program.roots) :
    (proceeding t).Ends s (runRoot t root)
      (fun _ s' => Settled t s' ∧ ((t.program.statement? root).isSome → root ∈ s'.handled)) t.Rejects := by
  have hempty : BuildState.Sound t { s with pairing := {} } := ⟨h.sound.graph, Pairing.sound_empty t _⟩
  refine .bind (Q := fun _ s' => s' = { s with pairing := {} }) (.modify ⟨.refl _, fun _ => hempty,
    List.Subset.refl _, id⟩ rfl) ?_
  rintro _ _ _ rfl
  refine (ends_explore { h.toCovers with sound := hempty } (.start hroot _) (Nat.le_refl _)).imp ?_
  rintro _ s' hl ⟨hcover, run, visited, hrunning⟩
  obtain ⟨runs, hlog, hhistory⟩ := h.history
  have hhandled : s'.handled = run ++ runs.flatten := hlog ▸ hrunning.log
  have hhistory := hhistory.mono hl.graph
  refine ⟨{ hcover with history := ?_ }, fun hknown => ?_⟩
  · rcases hrunning.done hroot with rfl | hrun
    · exact ⟨runs, hhandled, hhistory⟩
    · exact ⟨run :: runs, hhandled, .run hhistory (hlog ▸ hrun)⟩
  · rw [hhandled]
    exact List.mem_append_left _ ((hrunning.frontier.queued root hrunning.frontier.begun hknown).resolve_right nofun)

/-- All roots are handled in the end, unless the build was asked to stop, and says so. It fails only if it was not when
it began. -/
theorem ends_runRoots {roots : List StatementId} (h : Settled t s) (hroots : roots ⊆ t.program.roots) :
    (proceeding t).Ends s (runRoots t roots)
      (fun _ s' => Settled t s' ∧ (Reached t roots s' ∨ s'.cancelled ∧ s'.stats.cancelled))
      (fun e => s.cancelled = false ∧ t.Rejects e) := by
  induction roots generalizing s with
  | nil => exact .pure ⟨h, .inl nofun⟩
  | cons root roots ih =>
      refine .get_bind ?_
      split
      · rename_i hcancelled
        refine .modify ⟨.refl _, fun hs => ⟨hs.graph, hs.pairing⟩, List.Subset.refl _, id⟩ ⟨?_, .inr ⟨hcancelled, rfl⟩⟩
        exact { h with sound := ⟨h.sound.graph, h.sound.pairing⟩ }
      · rename_i hcancelled
        have hcancelled : s.cancelled = false := by simpa using hcancelled
        have hroot := ends_runRoot h (hroots List.mem_cons_self)
        refine .bind (hroot.mono (fun _ h => h) (fun _ _ _ h => h) fun _ he => ⟨hcancelled, he⟩) ?_
        rintro _ s₁ hl₁ ⟨h₁, hroot₁⟩
        have hrest := ih h₁ (List.Subset.trans (List.subset_cons_self _ _) hroots)
        refine hrest.mono (fun _ h => h) (fun _ s₂ hl₂ => ?_) fun _ he => ⟨hcancelled, he.2⟩
        rintro ⟨h₂, hroots₂⟩
        refine ⟨h₂, hroots₂.imp_left fun hroots₂ k hk hknown => ?_⟩
        rcases List.mem_cons.mp hk with rfl | hk
        · exact hl₂.handled (hroot₁ hknown)
        · exact hroots₂ k hk hknown

/-! ## Whole builds -/

theorem settled_empty (e : EntrypointId) (t : Setting) (stats : BuildStats) (cancelled : Bool) :
    Settled t { graph := { entrypoint := e, phase := .building }, stats, cancelled } where
  sound := ⟨⟨rfl, nofun, nofun, nofun, nofun, nofun, nofun, nofun⟩, Pairing.sound_empty t _⟩
  reach := nofun
  handled := nofun
  gate := nofun
  history := ⟨[], rfl, .none⟩

/-- A build that is not asked to stop handles every statement that can be reached, and no other one. It fails only if
one of these is a call that lacks an operand, and never if it was asked to stop beforehand. -/
theorem ends_complete (e : EntrypointId) (t : Setting) (cancelled : Bool) :
    Course.free.Ends { graph := { entrypoint := e }, cancelled } (complete t)
      (fun stats s' => Settled t s' ∧ s'.graph.entrypoint = e ∧
        (Reached t t.program.roots s' ∨ s'.cancelled ∧ stats.cancelled))
      (fun err => cancelled = false ∧ t.Rejects err) := by
  refine .bind (Q := fun _ s => s = { graph := { entrypoint := e, phase := .building }, cancelled }) ⟨trivial, rfl⟩ ?_
  rintro _ s₁ _ hs₁
  refine .bind (Q := fun _ s => Settled t s ∧ s.graph.entrypoint = e ∧ s.cancelled = cancelled)
    (.modify trivial ?_) ?_
  · rw [hs₁]
    exact ⟨settled_empty e t _ cancelled, rfl, rfl⟩
  · rintro _ s₂ _ ⟨hsettled, rfl, rfl⟩
    refine .bind (ends_runRoots hsettled (List.Subset.refl _)).toFree ?_
    rintro _ s₃ _ ⟨hl, hsettled, hroots⟩
    exact .get_bind (.pure ⟨hsettled, hl.graph.entrypoint, hroots⟩)

end Build

theorem BuildOutcome.exists_running {outcome : BuildOutcome}
    (h : outcome.result.toOption.map BuildStats.cancelled = some false) :
    ∃ stats, outcome.result = .ok stats ∧ stats.cancelled = false := by
  obtain ⟨stats, hok, hrunning⟩ := Option.map_eq_some_iff.mp h
  exact ⟨stats, eq_ok_of_toOption hok, hrunning⟩

namespace FlowGraph

/-- The statements that a build of a graph handles, last one first. -/
def handledBy (g : FlowGraph) (t : Setting) (cancelled : Bool) : List StatementId :=
  ((Build.complete t).run { graph := g, cancelled }).2.handled

/-- The runs of a build, last one first, and the statements that each of them handles, in the same order. -/
def runsBy (g : FlowGraph) (t : Setting) (cancelled : Bool) : List (List StatementId) :=
  (g.handledBy t cancelled).splitBy fun id _ => id ∉ t.program.roots

theorem build_eq {g : FlowGraph} {t : Setting} {cancelled : Bool} {r : Except AnalysisError BuildStats}
    {s' : BuildState} (h : (Build.complete t).run { graph := g, cancelled } = (r, s')) :
    g.build t cancelled = ⟨r, s'.graph, s'.cancelled⟩ ∧ g.handledBy t cancelled = s'.handled := by
  constructor
  · simp only [FlowGraph.build]
    rw [h]
  · rw [handledBy, h]

/-- What a build of an empty graph gives: a sound graph in which every statement that can be reached is handled, unless
the build was asked to stop, or an error about one of these statements. -/
theorem build_cases (e : EntrypointId) (t : Setting) (cancelled : Bool) :
    let outcome := ({ entrypoint := e } : FlowGraph).build t cancelled
    (∃ stats, outcome.result = .ok stats ∧ outcome.graph.Sound t ∧ outcome.graph.entrypoint = e ∧
      (outcome.cancelled = false ∨ stats.cancelled = false →
        (∀ id, id ∈ ({ entrypoint := e } : FlowGraph).handledBy t cancelled ↔
          t.program.Reaches id ∧ (t.program.statement? id).isSome) ∧
        ∀ q id kind, t.program.Runs q id kind → outcome.graph.Handled t ⟨id, q, kind⟩)) ∨
    ∃ err, outcome.result = .error err ∧ cancelled = false ∧ t.Rejects err := by
  have hends := Build.ends_complete e t cancelled
  rcases hrun : (Build.complete t).run { graph := { entrypoint := e }, cancelled } with ⟨r, s'⟩
  obtain ⟨hbuild, hhandled⟩ := build_eq hrun
  rw [hbuild, hhandled]
  cases r with
  | error err => exact .inr ⟨err, rfl, hends.of_error hrun⟩
  | ok stats =>
      obtain ⟨_, hsettled, hentrypoint, hroots⟩ := hends.of_ok hrun
      refine .inl ⟨stats, rfl, hsettled.sound.graph, hentrypoint, fun hrunning => ?_⟩
      have hroots := hroots.resolve_right fun hstopped => by simp [hstopped] at hrunning
      refine ⟨fun id => hsettled.mem_handled_iff hroots, fun q id kind hruns => ?_⟩
      have hid := (hsettled.mem_handled_iff hroots).mpr ⟨hruns.1, Option.isSome_of_eq_some hruns.2⟩
      exact hsettled.handled id hid _ hruns.2

theorem sound_build {e : EntrypointId} {t : Setting} {cancelled : Bool} {stats : BuildStats}
    (hok : (({ entrypoint := e } : FlowGraph).build t cancelled).result = .ok stats) :
    (({ entrypoint := e } : FlowGraph).build t cancelled).graph.Sound t := by
  rcases build_cases e t cancelled with ⟨_, _, hsound, _⟩ | ⟨err, herror, _⟩
  · exact hsound
  · rw [hok] at herror
    cases herror

/-- What a build that succeeds handles, run by run. -/
theorem build_history {e : EntrypointId} {t : Setting} {cancelled : Bool} {stats : BuildStats}
    (hok : (({ entrypoint := e } : FlowGraph).build t cancelled).result = .ok stats) :
    let runs := ({ entrypoint := e } : FlowGraph).runsBy t cancelled
    ({ entrypoint := e } : FlowGraph).handledBy t cancelled = runs.flatten ∧
      Build.History t (({ entrypoint := e } : FlowGraph).build t cancelled).graph runs := by
  rcases hrun : (Build.complete t).run { graph := { entrypoint := e }, cancelled } with ⟨r, s'⟩
  obtain ⟨hbuild, hhandled⟩ := build_eq hrun
  rw [hbuild] at hok ⊢
  cases hok
  obtain ⟨runs, hlog, hhistory⟩ := ((Build.ends_complete e t cancelled).of_ok hrun).2.1.history
  rw [runsBy, hhandled, hlog, hhistory.splitBy_flatten]
  exact ⟨rfl, hhistory⟩

end FlowGraph

end SinkFlow
