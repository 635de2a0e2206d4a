import SinkFlow.Proofs.Analysis
import SinkFlow.Proofs.Build.Coverage

/-!
Which analyses fail. Everything after the build succeeds on a graph that was built, so an entrypoint is refused only if
it is registered already or if a call that can be reached lacks an operand.
-/

namespace SinkFlow

/-! ## Collecting fields -/

open GraphTables (SameShape)

/-- The course of edits that only change facts. -/
def FlowGraph.shaping : Course FlowGraph := ⟨fun g g' => SameShape g g', fun g => .refl g, .trans⟩

namespace GraphTables

variable {t : Setting} {g g' : GraphTables}

theorem Sound.incomingViews_there (hg : g.Sound t) (h : SameShape g g') (field : FieldSignature) :
    ∀ n ∈ g'.incomingViews field, (g'.node? n).isSome := by
  intro n hn
  rw [h.node?_isSome]
  simp only [incomingViews, h.incoming] at hn
  exact (hg.incoming field n hn).node?_isSome

theorem Sound.outgoingViews_there (hg : g.Sound t) (h : SameShape g g') (field : FieldSignature) :
    ∀ n ∈ g'.outgoingViews field, (g'.node? n).isSome := by
  intro n hn
  rw [h.node?_isSome]
  simp only [outgoingViews, h.outgoing] at hn
  exact (hg.outgoing field n hn).node?_isSome

end GraphTables

namespace FieldStats

open FlowGraph
open GraphTables (expect expectNode node?_isSome_iff)

variable {g : FlowGraph} {E : AnalysisError → Prop}

theorem ends_addToViews (i : Item) (t : Trace) {views : List NodeId} (hviews : ∀ n ∈ views, (g.node? n).isSome) :
    shaping.Ends g (addToViews i t views) (fun _ _ => True) E := by
  induction views generalizing g with
  | nil => exact .pure trivial
  | cons view views ih =>
      have hlt : view < g.nodes.size := node?_isSome_iff.mp (hviews view List.mem_cons_self)
      have hadd : g.addFact view i t = .ok (!(g.factsAt view).has i, g.editFacts view (·.add i t)) := by
        simp [addFact, expectNode, hlt, bind, Except.bind, pure, Except.pure]
      have hshape := SameShape.editFacts g view (·.add i t)
      refine .bind (Q := fun _ _ => True) (Edit.ends_attempt hadd hshape trivial) fun new g₁ hl _ => ?_
      refine .bind (ih fun n hn => ?_) fun _ _ _ _ => .pure trivial
      rw [hl.node?_isSome]
      exact hviews n (List.mem_cons_of_mem _ hn)

theorem ends_inject {views : List NodeId} (hviews : ∀ n ∈ views, (g.node? n).isSome) (s : FieldStats)
    (ls : List Literal) : shaping.Ends g (inject views s ls) (fun _ _ => True) E := by
  induction ls generalizing g s with
  | nil => exact .pure trivial
  | cons l ls ih =>
      refine .bind (ends_addToViews _ _ hviews) fun new g₁ hl _ => ih (fun n hn => ?_) _
      rw [hl.node?_isSome]
      exact hviews n hn

/-- A pass over some fields that can be made on every graph of the same shape can be made from one on. -/
theorem ends_foldlM {g₀ : FlowGraph} {f : FieldStats → FieldSignature → Edit FieldStats} (h₀ : SameShape g₀ g)
    (step : ∀ s field (g' : FlowGraph), SameShape g₀ g' → shaping.Ends g' (f s field) (fun _ _ => True) E)
    (fields : List FieldSignature) (s : FieldStats) :
    Course.free.Ends g (fields.foldlM f s) (fun _ (g' : FlowGraph) => SameShape g₀ g') E := by
  have hpass : shaping.Ends g (fields.foldlM f s) (fun _ _ => True) E :=
    .foldlM fun s field _ g' hl => step s field g' (h₀.trans hl)
  exact hpass.toFree.imp fun _ _ _ hl => h₀.trans hl.1

/-- Collecting the fields of a sound graph succeeds: all views that are listed are there. -/
theorem ends_collect {t : Setting} (hg : GraphTables.Sound t g) (p : Program) :
    Course.free.Ends g (collect p) (fun _ _ => True) (fun _ => False) := by
  have hexpect : (g.expect .building).map (fun _ => ((), g)) = .ok ((), g) := by
    simp [expect, hg.phase, Except.map]
  refine .bind (Q := fun _ g' => g = g') (Edit.ends_attempt hexpect trivial rfl) ?_
  rintro _ _ _ rfl
  refine .get_bind (.bind (ends_foldlM (.refl g) (fun s field g' hl => ?_) _ _) fun s₁ g₁ _ h₁ => ?_)
  · exact .get_bind (.bind (ends_addToViews _ _ (hg.incomingViews_there hl field)) fun _ _ _ _ => .pure trivial)
  refine .bind (ends_foldlM h₁ (fun s field g' hl => ?_) _ _) fun s₂ g₂ _ h₂ => ?_
  · exact .get_bind (.bind (ends_addToViews _ _ (hg.outgoingViews_there hl field)) fun _ _ _ _ => .pure trivial)
  refine .bind (ends_foldlM h₂ (fun s field g' hl => .get_bind ?_) _ _) fun s₃ g₃ _ h₃ => ?_
  · split
    · exact .pure trivial
    · exact ends_inject (fun n hn => hg.incomingViews_there hl field n (List.mem_filter.mp hn).1) _ _
  · have hfinish : g₃.finishFields = .ok (g₃.inPhase .fieldsCollected) :=
      advance_eq_ok_iff.mpr ⟨h₃.phase.trans hg.phase, rfl⟩
    exact .bind (Q := fun _ _ => True) (Edit.ends_attemptUpdate hfinish trivial trivial) fun _ _ _ _ => .pure trivial

end FieldStats

namespace Analysis

variable {t : Setting} {config : Config} {p : Program} {g : FlowGraph}

/-- On a graph that was built, the remaining stages succeed. -/
theorem finish_eq_ok (hg : GraphTables.Sound t g) (config : Config) (p : Program) :
    ∃ fields stats g', finish config p g = .ok (fields, stats, g') ∧ g'.phase = .cleared ∧
      g'.entrypoint = g.entrypoint := by
  have hends := FieldStats.ends_collect hg p
  rcases hcollect : g.collectFields p with ⟨r, g₁⟩
  cases r with
  | error err => exact (hends.of_error hcollect).elim
  | ok fields =>
      have hg₁ := FlowGraph.collectFields_eq hcollect
      have hphase : g₁.phase = .fieldsCollected := by rw [hg₁, FlowGraph.phase_inPhase]
      have hentrypoint : g₁.entrypoint = g.entrypoint := by
        rw [hg₁]
        exact (FlowGraph.grows_note g _).shape.entrypoint
      obtain ⟨stats, g₂, hprop⟩ : ∃ stats g₂, g₁.propagate config.maxWorklistIterations = .ok (stats, g₂) :=
        ⟨_, _, FlowGraph.propagate_eq_ok_iff.mpr ⟨hphase, rfl, rfl⟩⟩
      obtain ⟨_, _, hg₂⟩ := FlowGraph.propagate_eq_ok_iff.mp hprop
      have hphase₂ : g₂.phase = .propagated := by rw [hg₂, FlowGraph.phase_inPhase]
      obtain ⟨g₃, hclear⟩ : ∃ g₃, g₂.clear = .ok g₃ := ⟨_, FlowGraph.clear_eq_ok_iff.mpr ⟨hphase₂, rfl⟩⟩
      obtain ⟨_, hg₃⟩ := FlowGraph.clear_eq_ok_iff.mp hclear
      refine ⟨fields, stats, g₃, finish_eq_ok_iff.mpr ⟨g₁, g₂, hcollect, hprop, hclear⟩, hg₃ ▸ rfl, ?_⟩
      rw [hg₃, hg₂]
      exact (Propagation.grows_complete _ g₁).shape.entrypoint.trans hentrypoint

/-- What an analysis of an entrypoint gives. -/
theorem analyze_outcomes (a : Analysis) (e : EntrypointId) (p : Program) :
    let t : Setting := ⟨p, a.config, a.rules⟩
    let cancelled := (({ entrypoint := e } : FlowGraph).build t a.cancelled).cancelled
    a.graphs.contains e ∧ a.analyze e p = (.error (.duplicateEntrypoint e), a) ∨
      a.graphs.contains e = false ∧ a.cancelled = false ∧
        (∃ err, a.analyze e p = (.error err, { a with cancelled }) ∧ t.Rejects err) ∨
      a.graphs.contains e = false ∧
        ∃ stats g, a.analyze e p = (.ok stats, { a with cancelled, graphs := a.graphs.insert e g }) ∧
          g.phase = .cleared ∧ g.entrypoint = e ∧ (cancelled = false → ∀ call index, ¬ t.Lacks call index) := by
  intro t cancelled
  cases hregistered : a.graphs.contains e with
  | true => exact .inl ⟨rfl, by simp [analyze, hregistered]⟩
  | false =>
      right
      rcases FlowGraph.build_cases e t a.cancelled with
        ⟨build, hbuild, hsound, hentrypoint, hhandled⟩ | ⟨err, hbuild, hcancelled, hrejects⟩
      · right
        obtain ⟨fields, propagation, g, hfinish, hphase, hg⟩ := finish_eq_ok hsound a.config p
        refine ⟨rfl, ⟨e, build, fields, propagation⟩, g, ?_, hphase, hg.trans hentrypoint, ?_⟩
        · simp [analyze, hregistered, hbuild, hfinish, t, cancelled]
        · rintro hrunning call index ⟨q, id, hruns, hun⟩
          exact ((hhandled (.inl hrunning)).2 q id _ hruns).accepts call index rfl hun
      · left
        refine ⟨rfl, hcancelled, err, ?_, hrejects⟩
        simp [analyze, hregistered, hbuild, t, cancelled]

/-- An analysis of an entrypoint fails exactly if it is registered already or a call that can be reached lacks an
operand, and the error says which. If it was asked to stop before it began, only the first can happen; if it was asked
to stop on the way, no other error can. A failed analysis leaves the registry alone, and one that succeeds adds the
entrypoint to it with a cleared graph. -/
theorem analyze_fails_exactly (a : Analysis) (e : EntrypointId) (p : Program) :
    let t : Setting := ⟨p, a.config, a.rules⟩
    let answer := a.analyze e p
    (a.graphs.contains e → answer.1 = .error (.duplicateEntrypoint e)) ∧
    (∀ err, answer.1 = .error err → a.graphs.contains e = false → t.Rejects err) ∧
    (answer.2.cancelled = false →
      ((∃ err, answer.1 = .error err) ↔ a.graphs.contains e ∨ ∃ call index, t.Lacks call index)) ∧
    (a.cancelled → ((∃ err, answer.1 = .error err) ↔ a.graphs.contains e)) ∧
    (∀ err, answer.1 = .error err → answer.2.graphs = a.graphs) ∧
    ∀ stats, answer.1 = .ok stats → a.graphs.contains e = false ∧
      ∃ g, g.phase = .cleared ∧ g.entrypoint = e ∧
        ∀ e', answer.2.graphs.get? e' = if e' = e then some g else a.graphs.get? e' := by
  dsimp only
  rcases analyze_outcomes a e p with ⟨hregistered, he⟩ | ⟨hregistered, hcancelled, err, he, hrejects⟩ |
    ⟨hregistered, stats, g, he, hphase, hentrypoint, haccepts⟩
  · rw [he, hregistered]
    refine ⟨fun _ => rfl, nofun, fun _ => ?_, fun _ => ?_, fun _ _ => rfl, nofun⟩
    · exact ⟨fun _ => .inl rfl, fun _ => ⟨_, rfl⟩⟩
    · exact ⟨fun _ => rfl, fun _ => ⟨_, rfl⟩⟩
  · rw [he, hregistered]
    obtain ⟨call, index, hlacks, rfl⟩ := hrejects
    refine ⟨nofun, ?_, fun _ => ?_, ?_, fun _ _ => rfl, nofun⟩
    · rintro _ ⟨⟩ _
      exact ⟨call, index, hlacks, rfl⟩
    · exact ⟨fun _ => .inr ⟨call, index, hlacks⟩, fun _ => ⟨_, rfl⟩⟩
    · intro h
      rw [hcancelled] at h
      cases h
  · rw [he, hregistered]
    refine ⟨nofun, nofun, fun hrunning => ?_, fun _ => ?_, nofun, fun _ _ => ⟨rfl, g, hphase, hentrypoint, ?_⟩⟩
    · refine ⟨nofun, ?_⟩
      rintro (h | ⟨call, index, hlacks⟩)
      · cases h
      · exact absurd hlacks (haccepts hrunning call index)
    · exact ⟨nofun, nofun⟩
    · exact fun e' => Table.get?_insert _ _ _ _

/-- A method that leaks its first operand. -/
def sendRules : RuleTables where
  sinks := Table.empty.insert sendMethod ⟨"net", sendMethod, [0]⟩

/-- A program that calls the method without an operand. -/
def bareProgram : Program := GraphDocument.program
  { statements := [⟨4, 0, .normal (.invoke ⟨sendMethod, true, [], none, true⟩)⟩] }

theorem bareProgram_fails :
    let a : Analysis := { config := {}, rules := sendRules }
    (a.analyze 0 bareProgram).2.cancelled = false ∧ (∃ err, (a.analyze 0 bareProgram).1 = .error err) ∧
      a.graphs.contains 0 = false := by
  intro a
  have hrunning : (a.analyze 0 bareProgram).2.cancelled = false := by decide +kernel
  have hlacks : Setting.Lacks ⟨bareProgram, {}, sendRules⟩ ⟨sendMethod, true, [], none, true⟩ 0 :=
    ⟨0, 4, ⟨.root (by decide), by decide⟩, .sink ⟨"net", sendMethod, [0]⟩ (by decide) (by decide) rfl⟩
  exact ⟨hrunning, ((analyze_fails_exactly a 0 bareProgram).2.2.1 hrunning).mpr (.inr ⟨_, _, hlacks⟩), rfl⟩

end Analysis

end SinkFlow
