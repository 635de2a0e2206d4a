import SinkFlow.Analysis
import SinkFlow.Proofs.Program
import SinkFlow.Proofs.Propagation.Dropping
import SinkFlow.Proofs.Search

/-!
Whole analyses: whatever is asked of an analysis, every registered graph is fully traced over statements of the
program that was analysed as its entrypoint, and so is every report.
-/

namespace SinkFlow

namespace Analysis

variable {P : StatementRef → Prop} {a : Analysis} {e : EntrypointId} {p : Program} {g g' : FlowGraph} {config : Config}

/-! ## One entrypoint -/

theorem finish_eq_ok_iff {fields : FieldStats} {stats : PropagationStats} :
    finish config p g = .ok (fields, stats, g') ↔
      ∃ g₁ g₂, g.collectFields p = (.ok fields, g₁) ∧
        g₁.propagate config.maxWorklistIterations = .ok (stats, g₂) ∧ g₂.clear = .ok g' := by
  rcases hc : g.collectFields p with ⟨r, g₁⟩
  cases r with
  | error err => simp [finish, hc, bind, Except.bind]
  | ok fields₁ =>
      cases hp : g₁.propagate config.maxWorklistIterations with
      | error err => simp [finish, hc, hp, bind, Except.bind]
      | ok r =>
          obtain ⟨stats₁, g₂⟩ := r
          cases hk : g₂.clear with
          | error err => simp [finish, hc, hp, hk, bind, Except.bind]
          | ok g₃ =>
              have hf : finish config p g = .ok (fields₁, stats₁, g₃) := by
                simp [finish, hc, hp, hk, bind, Except.bind, pure, Except.pure]
              rw [hf]
              constructor
              · intro h
                cases h
                exact ⟨g₁, g₂, rfl, hp, hk⟩
              · rintro ⟨_, _, h₁, h₂, h₃⟩
                cases h₁
                cases hp.symm.trans h₂
                cases hk.symm.trans h₃
                rfl

/-- The graph that an analysis ends with is fully traced: what clearing leaves belongs to fields and sink operands,
whose traces were never dropped. -/
theorem traced_finish {fields : FieldStats} {stats : PropagationStats} (hg : g.Drawn e p)
    (h : finish config p g = .ok (fields, stats, g')) : g'.Traced (·.IsOf e p) := by
  obtain ⟨g₁, g₂, hcollect, hprop, hclear⟩ := finish_eq_ok_iff.mp h
  have htraced : g₁.Traced (·.IsOf e p) := FlowGraph.traced_collectFields hg.blank hcollect
  have hcharted := FlowGraph.Charted.collectFields hg.toCharted hcollect
  intro n
  rw [FlowGraph.factsAt_clear hclear]
  split
  · rename_i hn
    exact htraced.propagate_kept hcharted hprop hn
  · exact .empty

/-- An entrypoint is refused if it is registered, it fails, or its graph is registered. -/
theorem analyze_cases (a : Analysis) (e : EntrypointId) (p : Program) :
    let outcome := ({ entrypoint := e } : FlowGraph).build ⟨p, a.config, a.rules⟩ a.cancelled
    a.graphs.contains e ∧ a.analyze e p = (.error (.duplicateEntrypoint e), a) ∨
      (∃ err, a.analyze e p = (.error err, { a with cancelled := outcome.cancelled })) ∨
      ∃ build fields propagation g, a.graphs.contains e = false ∧ outcome.result = .ok build ∧
        finish a.config p outcome.graph = .ok (fields, propagation, g) ∧
        a.analyze e p =
          (.ok ⟨e, build, fields, propagation⟩,
            { a with cancelled := outcome.cancelled, graphs := a.graphs.insert e g }) := by
  intro outcome
  cases hd : a.graphs.contains e with
  | true => exact .inl ⟨rfl, by simp [analyze, hd]⟩
  | false =>
      right
      cases hb : outcome.result with
      | error err => exact .inl ⟨err, by simp [analyze, hd, outcome, hb]⟩
      | ok build =>
          cases hf : finish a.config p outcome.graph with
          | error err => exact .inl ⟨err, by simp [analyze, hd, outcome, hb, hf]⟩
          | ok r =>
              obtain ⟨fields, propagation, g⟩ := r
              exact .inr ⟨build, fields, propagation, g, rfl, rfl, rfl, by simp [analyze, hd, outcome, hb, hf]⟩

/-! ## Reports -/

theorem localFacts_traced {ns : List NodeId} {known facts : Facts} (hg : g.Traced P) (hk : known.Traced P)
    (h : localFacts g ns known = .ok facts) : facts.Traced P := by
  induction ns generalizing known with
  | nil =>
      cases h
      exact hk
  | cons n ns ih =>
      simp only [localFacts, GraphTables.expectNode, bind, Except.bind] at h
      split at h
      · cases h
      · exact ih (hk.merge ((hg n).filter _)) h

theorem reaching_traced {site : SinkSite} {facts : Facts} (hr : a.graphs.Traced P) (h : a.reaching site = .ok facts) :
    facts.Traced P := by
  cases hg : a.graphs.get? site.entrypoint with
  | none => simp [reaching, hg] at h
  | some g =>
      cases hl : localFacts g site.arguments .empty with
      | error err => simp [reaching, hg, hl, bind, Except.bind] at h
      | ok known =>
          simp only [reaching, hg, hl, bind, Except.bind, pure, Except.pure, Except.ok.injEq] at h
          subst h
          have hknown := localFacts_traced (hr _ g hg) .empty hl
          exact List.foldlRecOn _ _ hknown fun _ hk n _ => hr.search (hr.search hk _ _ n .backward) _ _ n .forward

theorem report_traced {site : SinkSite} {report : SinkReport} (hr : a.graphs.Traced P)
    (h : a.report site = .ok report) : ∀ entry ∈ report.texts, Trace.LeadsOver P entry.path := by
  cases hf : a.reaching site with
  | error err => simp [Analysis.report, hf, bind, Except.bind] at h
  | ok facts =>
      simp only [Analysis.report, hf, bind, Except.bind, pure, Except.pure, Except.ok.injEq] at h
      subst h
      intro entry hentry
      obtain ⟨⟨text, t⟩, hmem, rfl⟩ := List.mem_map.mp hentry
      exact reaching_traced hr hf (.text text) t nofun (Facts.mem_texts.mp hmem)

/-! ## Sessions -/

/-- What may be asked of an analysis from outside, reports apart. -/
inductive Request where
  | analyze (entrypoint : EntrypointId) (program : Program)
  | cancel
  | rearm
  | reset

/-- An analysis under way, and which program was analysed as which of its entrypoints. -/
structure Session where
  analysis : Analysis
  programs : Table EntrypointId Program := ∅

namespace Session

/-- Does what is asked. A program whose analysis fails is not remembered. -/
def perform (s : Session) : Request → Session
  | .analyze e p =>
    match s.analysis.analyze e p with
    | (.ok _, a) => { analysis := a, programs := s.programs.insert e p }
    | (.error _, a) => { s with analysis := a }
  | .cancel => { s with analysis := { s.analysis with cancelled := true } }
  | .rearm => { s with analysis := { s.analysis with cancelled := false } }
  | .reset => { analysis := s.analysis.reset }

/-- Does one request after another. -/
def run (s : Session) (requests : List Request) : Session := requests.foldl perform s

/-- What some requests make of a new analysis. -/
def after (config : Config) (rules : RuleTables) (requests : List Request) : Session :=
  run { analysis := { config, rules } } requests

/-- A reference names a registered entrypoint, and a statement of the program that was analysed as it. -/
def Names (s : Session) (r : StatementRef) : Prop :=
  s.analysis.graphs.contains r.entrypoint ∧
    ∃ p, s.programs.get? r.entrypoint = some p ∧ r.statement ∈ p.statementIds

/-- Every registered graph is fully traced over statements of the program that was analysed as its entrypoint. -/
def Traced (s : Session) : Prop :=
  ∀ e g, s.analysis.graphs.get? e = some g → ∃ p, s.programs.get? e = some p ∧ g.Traced (·.IsOf e p)

variable {s : Session}

/-- An entrypoint that is analysed anew does not touch the others. -/
theorem Traced.perform (h : s.Traced) (request : Request) : (s.perform request).Traced := by
  cases request with
  | cancel => exact h
  | rearm => exact h
  | reset => exact nofun
  | analyze e p =>
      rcases analyze_cases s.analysis e p with ⟨_, he⟩ | ⟨_, he⟩ | ⟨_, _, _, g, _, hbuild, hfinish, he⟩
      · simp only [Session.perform, he]
        exact h
      · simp only [Session.perform, he]
        exact h
      · simp only [Session.perform, he]
        intro e' g' hg'
        simp only [Table.get?_insert] at hg' ⊢
        split at hg'
        · rename_i hee
          subst hee
          cases hg'
          exact ⟨p, by simp, traced_finish (FlowGraph.drawn_build hbuild) hfinish⟩
        · rename_i hee
          simp only [hee, if_false]
          exact h e' g' hg'

theorem Traced.run (h : s.Traced) (requests : List Request) : (s.run requests).Traced :=
  List.foldlRecOn requests _ h fun _ hs request _ => hs.perform request

theorem Traced.registry (h : s.Traced) : s.analysis.graphs.Traced s.Names := by
  intro e g hg n
  obtain ⟨p, hp, htraced⟩ := h e g hg
  refine (htraced n).mono ?_
  rintro r ⟨rfl, hr⟩
  refine ⟨?_, p, hp, hr⟩
  rw [Table.contains_iff, Table.mem_keys_iff, hg]
  rfl

end Session

/-- Whatever was asked of an analysis before, every text of a report comes with a trace that leads over statements
of registered entrypoints. What it rests on is that a propagation, whether it is stopped or not, drops no trace at
a field or a sink operand, and none at another node before all neighbours that may take the item have it. -/
theorem reports_traced (config : Config) (rules : RuleTables) (requests : List Request) :
    (∀ site report, (Session.after config rules requests).analysis.report site = .ok report →
      ∀ entry ∈ report.texts,
        ∃ path, entry.path = some path ∧ ∀ r ∈ path, (Session.after config rules requests).Names r) ∧
    ∀ g cap stats g', FlowGraph.Collected g → g.propagate cap = .ok (stats, g') →
      ∀ n i, i.facet ≠ .constants → (g'.factsAt n).trace? i = some none →
        g'.isKept n = false ∧ FlowGraph.Served g' n i := by
  have hstart : Session.Traced { analysis := { config, rules } } := nofun
  refine ⟨fun site report h => report_traced (hstart.run requests).registry h, ?_⟩
  rintro g cap stats g' ⟨e, t, cancelled, built, p, fields, hbuild, hcollect⟩ hp
  have htraced : g.Traced fun _ => True := FlowGraph.traced_collectFields (FlowGraph.drawn_build hbuild).blank hcollect
  exact htraced.propagate_dropsServed hp

/-! ## A report across entrypoints -/

/-- A field that the following programs share. -/
def sharedField : FieldSignature := ⟨"app.Store", "token"⟩

/-- A method that leaks its argument. -/
def sendMethod : MethodSignature := ⟨"app.Net.send(Ljava/lang/String;)V"⟩

/-- A program that stores a text in a field. -/
def storingProgram : Program := GraphDocument.program
  { statements := [⟨3, 0, .normal (.putField none 0 sharedField)⟩]
    literals := [⟨0, 0, .text "secret"⟩] }

/-- A program that leaks what is in the field. -/
def sendingProgram : Program := GraphDocument.program
  { statements :=
      [⟨5, 0, .normal (.getField 0 none sharedField)⟩, ⟨6, 0, .normal (.invoke ⟨sendMethod, true, [0], none, true⟩)⟩]
    edges := [(5, 6)] }

/-- Both programs are analysed; the third request is refused, since its entrypoint is taken. -/
def crossing : Session :=
  Session.after {} { sinks := Table.empty.insert sendMethod ⟨"net", sendMethod, [0]⟩ }
    [.analyze 1 sendingProgram, .analyze 0 storingProgram, .analyze 0 sendingProgram]

/-- What is reported on the sink: the text comes from the one program and is leaked by the other. -/
def crossingReport : SinkReport where
  entrypoint := 1
  procedure := 0
  statement := 6
  signature := sendMethod
  tag := "net"
  texts := [⟨"secret", some [⟨0, 3⟩, ⟨1, 5⟩]⟩]
  constants := []

theorem crossing_reports_traced :
    crossing.analysis.report ⟨1, 0, 6, sendMethod, "net", [0]⟩ = .ok crossingReport ∧
      ∀ entry ∈ crossingReport.texts, ∃ path, entry.path = some path ∧ ∀ r ∈ path, crossing.Names r := by
  have h : crossing.analysis.report ⟨1, 0, 6, sendMethod, "net", [0]⟩ = .ok crossingReport :=
    eq_ok_of_toOption (by decide +kernel)
  exact ⟨h, (reports_traced _ _ _).1 _ _ h⟩

end Analysis

end SinkFlow
