import SinkFlow.Analysis
import SinkFlow.Proofs.Search.Depth

/-!
What a greater depth of the field searches does to a report. Nothing that reached a sink is lost. Since the searches of
a report hand on what they have found, a text may come to be found by an earlier one, and then has the path of that one.
All others keep theirs.
-/

namespace SinkFlow

namespace Analysis

variable {a : Analysis} {site : SinkSite} {facts : Facts} {d : Nat}

/-- An analysis with another depth of its field searches. -/
def withDepth (a : Analysis) (d : Nat) : Analysis := { a with config := { a.config with fieldSearchDepth := d } }

/-- Every search from an operand of a sink that finds an item at some depth finds it at the depth of the analysis,
too. -/
def Steady (a : Analysis) (d : Nat) (site : SinkSite) (i : Item) : Prop :=
  ∀ n ∈ site.arguments, ∀ direction, (a.graphs.search d site.entrypoint n direction .empty).1.has i →
    (a.graphs.search a.config.fieldSearchDepth site.entrypoint n direction .empty).1.has i

/-- What the searches of a report have found at a greater depth goes on from what they have found at that of the
analysis, as far as one item is concerned. -/
structure Deepens (a : Analysis) (d : Nat) (site : SinkSite) (i : Item) (shallow deep : Facts) : Prop where
  kept : shallow.has i → deep.has i
  steady : a.Steady d site i → deep.trace? i = shallow.trace? i

theorem Deepens.search {n : NodeId} {i : Item} {shallow deep : Facts} (h : Deepens a d site i shallow deep)
    (hd : a.config.fieldSearchDepth ≤ d) (hn : n ∈ site.arguments) (direction : Direction) :
    Deepens a d site i (a.graphs.search a.config.fieldSearchDepth site.entrypoint n direction shallow).1
      (a.graphs.search d site.entrypoint n direction deep).1 := by
  have hmono := fun t => a.graphs.trace?_search_mono hd site.entrypoint n direction (i := i) (t := t)
  refine ⟨fun hi => ?_, fun hsteady => ?_⟩
  · rw [Registry.has_search, Bool.or_eq_true] at hi ⊢
    refine hi.imp h.kept fun hi => ?_
    obtain ⟨t, ht⟩ := Facts.trace?_of_has hi
    exact Facts.has_of_trace? (hmono t ht)
  · have hsame : (a.graphs.search d site.entrypoint n direction .empty).1.trace? i =
        (a.graphs.search a.config.fieldSearchDepth site.entrypoint n direction .empty).1.trace? i := by
      cases ht : (a.graphs.search a.config.fieldSearchDepth site.entrypoint n direction .empty).1.trace? i with
      | some t => exact hmono t ht
      | none =>
          rw [← Option.not_isSome_iff_eq_none, ← Facts.has_eq_isSome]
          intro hi
          have hshallow := hsteady n hn direction hi
          simp [Facts.has_eq_isSome, ht] at hshallow
    rw [Registry.trace?_search _ _ _ _ _ deep, Registry.trace?_search _ _ _ _ _ shallow, h.steady hsteady, hsame]

/-- Raising the depth of the field searches keeps all that reaches a sink. An item that no search finds only now has the
trace that it had. -/
theorem reaching_deeper (hd : a.config.fieldSearchDepth ≤ d) (h : a.reaching site = .ok facts) :
    ∃ deep, (a.withDepth d).reaching site = .ok deep ∧ ∀ i, Deepens a d site i facts deep := by
  cases hg : a.graphs.get? site.entrypoint with
  | none => simp [reaching, hg] at h
  | some g =>
      cases hl : localFacts g site.arguments .empty with
      | error err => simp [reaching, hg, hl, bind, Except.bind] at h
      | ok known =>
          simp only [reaching, hg, hl, bind, Except.bind, pure, Except.pure, Except.ok.injEq] at h
          subst h
          have hg' : (a.withDepth d).graphs.get? site.entrypoint = some g := hg
          simp only [reaching, hg', hl, bind, Except.bind, pure, Except.pure, Except.ok.injEq, exists_eq_left']
          intro i
          exact List.foldl_rel ⟨id, fun _ => rfl⟩ fun n hn _ _ hi => (hi.search hd hn .backward).search hd hn .forward

/-- Two operands that were read from fields. The first field is written with what was read from the second one, which
another entrypoint writes with a text. -/
def detourAnalysis : Analysis where
  config := {}
  rules := default
  graphs :=
    let account : FieldSignature := ⟨"app.Store", "account"⟩
    let token : FieldSignature := ⟨"app.Store", "token"⟩
    Table.ofEntries
      [(0, Registry.writingGraph 0
        [(⟨"app.View", "shown"⟩, Facts.empty.add (.inputField account) (some [⟨0, 8⟩])),
          (⟨"app.View", "hidden"⟩, Facts.empty.add (.inputField token) (some [⟨0, 9⟩]))]),
        (1, Registry.writingGraph 1 [(account, Facts.empty.add (.inputField token) (some [⟨1, 4⟩]))]),
        (2, Registry.writingGraph 2 [(token, Facts.empty.add (.text "secret") (some [⟨2, 1⟩]))])]

/-- A text that an earlier search finds only now gets another trace. -/
theorem detourAnalysis_reaching :
    let site : SinkSite := ⟨0, 0, 6, default, "net", [0, 1]⟩
    let traceAt (d : Nat) := ((detourAnalysis.withDepth d).reaching site).toOption.map (·.trace? (.text "secret"))
    traceAt 1 = some (some (some [⟨2, 1⟩, ⟨0, 9⟩])) ∧
      traceAt 2 = some (some (some [⟨2, 1⟩, ⟨1, 4⟩, ⟨0, 8⟩])) := by
  decide +kernel

end Analysis

end SinkFlow
