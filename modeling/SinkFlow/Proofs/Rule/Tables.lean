import SinkFlow.Proofs.Rule.Lines
import SinkFlow.Rule.Tables

/-!
What rule tables answer. The lines about a method are merged, in each table in its own way: rules are put together, the
last sensitive result counts, and a sink gets every operand once that is new. No other line has a say in it.
-/

namespace SinkFlow

/-! ## Merging under keys -/

section

variable {α κ ν : Type} [DecidableEq κ]

/-- A table to which items are merged under their keys holds under a key what the items with this key make of it. -/
theorem Table.get?_foldl_insert (key : α → κ) (merge : Option ν → α → ν) (items : List α) (t : Table κ ν) (k : κ) :
    (items.foldl (fun t a => t.insert (key a) (merge (t.get? (key a)) a)) t).get? k =
      (items.filter (key · = k)).foldl (fun v a => some (merge v a)) (t.get? k) := by
  induction items generalizing t with
  | nil => rfl
  | cons a items ih =>
      rw [List.foldl_cons, ih, get?_insert]
      by_cases h : k = key a
      · subst h
        simp
      · have hne : key a ≠ k := fun he => h he.symm
        simp [h, hne]

end

namespace RuleTables

/-! ## The three ways to merge -/

/-- Rules of a method that has some are put behind them. -/
def mergeRules (present? : Option PropagationRuleSet) (set : PropagationRuleSet) : PropagationRuleSet :=
  match present? with
  | some present => { present with rules := present.rules ++ set.rules }
  | none => set

/-- A sink that is known gets the operands that are new. -/
def mergeSinks (present? : Option SinkDefinition) (sink : SinkDefinition) : SinkDefinition :=
  match present? with
  | some present => { present with arguments := sink.arguments.foldl addOnce present.arguments }
  | none => sink

theorem foldl_mergeRules (present : PropagationRuleSet) (sets : List PropagationRuleSet) :
    sets.foldl (fun v set => some (mergeRules v set)) (some present) =
      some { present with rules := present.rules ++ sets.flatMap (·.rules) } := by
  induction sets generalizing present with
  | nil => simp
  | cons set sets ih =>
      rw [List.foldl_cons, ih, List.flatMap_cons, ← List.append_assoc]
      rfl

theorem foldl_mergeSinks (present : SinkDefinition) (sinks : List SinkDefinition) :
    sinks.foldl (fun v sink => some (mergeSinks v sink)) (some present) =
      some { present with arguments := (sinks.flatMap (·.arguments)).foldl addOnce present.arguments } := by
  induction sinks generalizing present with
  | nil => rfl
  | cons sink sinks ih =>
      rw [List.foldl_cons, ih, List.flatMap_cons, List.foldl_append]
      rfl

theorem foldl_latest {α : Type} (present : Option α) (as : List α) :
    as.foldl (fun _ a => some a) present = as.getLast?.or present := by
  induction as generalizing present with
  | nil => rfl
  | cons a as ih => cases h : as.getLast? <;> simp [ih, List.getLast?_cons, h]

/-! ## Tables of texts -/

/-- The rules of a method, from all its lines: the tag of the first one, and what they say in their order. -/
def mergedRules (sets : List PropagationRuleSet) : Option PropagationRuleSet :=
  sets.head?.map fun first => { first with rules := sets.flatMap (·.rules) }

/-- What a method leaks, from all its lines: the tag and the operands of the first one, and every other operand that one
of the later ones adds, at its first place. -/
def mergedSinks (sinks : List SinkDefinition) : Option SinkDefinition :=
  sinks.head?.map fun first =>
    { first with
      arguments :=
        first.arguments ++ ((sinks.tail.flatMap (·.arguments)).filter (· ∉ first.arguments)).eraseDups }

theorem foldl_addPropagation (sets : List PropagationRuleSet) (t : RuleTables) :
    sets.foldl addPropagation t =
      { t with
        propagation := sets.foldl (fun p set => p.insert set.signature (mergeRules (p.get? set.signature) set))
          t.propagation } := by
  induction sets generalizing t with
  | nil => rfl
  | cons set sets ih =>
      rw [List.foldl_cons, ih]
      rfl

theorem foldl_addSource (sources : List SourceCorrelation) (t : RuleTables) :
    sources.foldl addSource t =
      { t with sources := sources.foldl (fun s source => s.insert source.signature source) t.sources } := by
  induction sources generalizing t with
  | nil => rfl
  | cons source sources ih =>
      rw [List.foldl_cons, ih]
      rfl

theorem foldl_addSink (sinks : List SinkDefinition) (t : RuleTables) :
    sinks.foldl addSink t =
      { t with
        sinks := sinks.foldl (fun s sink => s.insert sink.signature (mergeSinks (s.get? sink.signature) sink))
          t.sinks } := by
  induction sinks generalizing t with
  | nil => rfl
  | cons sink sinks ih =>
      rw [List.foldl_cons, ih]
      rfl

variable {α β : Type} {m : MethodSignature}

/-- The valid lines of a table that are about a method, in their order. -/
def about (m : MethodSignature) (signature : α → MethodSignature) (lines : Rule.Outcome α) : List α :=
  lines.items.filter (signature · = m)

theorem propagation?_ofTexts (propagation sources sinks : String) :
    (ofTexts propagation sources sinks).propagation? m =
      mergedRules (about m (·.signature) (Rule.propagationTable propagation)) := by
  simp only [ofTexts, foldl_addSink, foldl_addSource, foldl_addPropagation, propagation?]
  rw [Table.get?_foldl_insert (·.signature) mergeRules, about]
  cases (Rule.propagationTable propagation).items.filter (·.signature = m) with
  | nil => rfl
  | cons first rest => exact foldl_mergeRules first rest

theorem source?_ofTexts (propagation sources sinks : String) :
    (ofTexts propagation sources sinks).source? m = (about m (·.signature) (Rule.sourceTable sources)).getLast? := by
  simp only [ofTexts, foldl_addSink, foldl_addSource, foldl_addPropagation, source?]
  have hlast := Table.get?_foldl_insert (·.signature) (fun _ source => source) (Rule.sourceTable sources).items ∅ m
  rw [foldl_latest] at hlast
  exact hlast.trans Option.or_none

theorem sink?_ofTexts (propagation sources sinks : String) :
    (ofTexts propagation sources sinks).sink? m = mergedSinks (about m (·.signature) (Rule.sinkTable sinks)) := by
  simp only [ofTexts, foldl_addSink, foldl_addSource, foldl_addPropagation, sink?]
  rw [Table.get?_foldl_insert (·.signature) mergeSinks, about]
  cases (Rule.sinkTable sinks).items.filter (·.signature = m) with
  | nil => rfl
  | cons first rest =>
      have hmerged := foldl_mergeSinks first rest
      rw [foldl_addOnce] at hmerged
      exact hmerged

/-- A sink leaks exactly the operands that its lines name. -/
theorem mem_arguments_mergedSinks {sinks : List SinkDefinition} {sink : SinkDefinition}
    (h : mergedSinks sinks = some sink) (i : Int) : i ∈ sink.arguments ↔ ∃ line ∈ sinks, i ∈ line.arguments := by
  cases sinks with
  | nil => cases h
  | cons first rest =>
      obtain rfl := Option.some.inj h
      by_cases hi : i ∈ first.arguments <;> simp [hi]

theorem isSome_head?_about {signature : α → MethodSignature} {lines : Rule.Outcome α} :
    (about m signature lines).head?.isSome ↔ ∃ a ∈ lines.items, signature a = m := by
  rw [about, List.isSome_head?, ne_eq, List.filter_eq_nil_iff]
  simp

/-- Answers that come from one text alone, and to which no piece of this text contributes unless it has a line that
counts. -/
def AnswersFrom (read : String → Rule.Outcome α) (Counts : α → Prop) (answer : String → String × String → β) : Prop :=
  ∀ (t piece u : String) (others others' : String × String), (∀ a ∈ (read piece).items, ¬Counts a) →
    answer (t ++ "\n" ++ piece ++ "\n" ++ u) others = answer (t ++ "\n" ++ u) others'

theorem answersFrom_of_about {read : String → Rule.Outcome α} {signature : α → MethodSignature}
    {answer : String → String × String → β} (merged : List α → β)
    (hread : ∀ t u, read (t ++ "\n" ++ u) = (read t).append (read u))
    (hanswer : ∀ text others, answer text others = merged (about m signature (read text))) :
    AnswersFrom read (signature · = m) answer := by
  intro t piece u others others' hnone
  have hpiece : (read piece).items.filter (signature · = m) = [] := by simpa using hnone
  simp only [hanswer, about, hread, Rule.Outcome.append, List.filter_append, hpiece, List.append_nil]

/-- What is known of a method is merged from the valid lines about it: all rules under the first tag, the last sensitive
result, and a sink with the first tag and each operand that is named. Nothing else in the three texts counts. -/
theorem ofTexts_merges (propagation sources sinks : String) (m : MethodSignature) :
    let tables := ofTexts propagation sources sinks
    let leaks := about m (·.signature) (Rule.sinkTable sinks)
    (tables.propagation? m = mergedRules (about m (·.signature) (Rule.propagationTable propagation)) ∧
        ((tables.propagation? m).isSome ↔ ∃ set ∈ (Rule.propagationTable propagation).items, set.signature = m)) ∧
      tables.source? m = (about m (·.signature) (Rule.sourceTable sources)).getLast? ∧
      (tables.sink? m = mergedSinks leaks ∧
        ((tables.sink? m).isSome ↔ ∃ sink ∈ (Rule.sinkTable sinks).items, sink.signature = m) ∧
        ∀ sink, tables.sink? m = some sink → ∀ i, i ∈ sink.arguments ↔ ∃ line ∈ leaks, i ∈ line.arguments) ∧
      AnswersFrom Rule.propagationTable (·.signature = m) (fun text o => (ofTexts text o.1 o.2).propagation? m) ∧
      AnswersFrom Rule.sourceTable (·.signature = m) (fun text o => (ofTexts o.1 text o.2).source? m) ∧
      AnswersFrom Rule.sinkTable (·.signature = m) (fun text o => (ofTexts o.1 o.2 text).sink? m) := by
  intro tables leaks
  have hsink := sink?_ofTexts (m := m) propagation sources sinks
  refine ⟨⟨propagation?_ofTexts .., ?_⟩, source?_ofTexts .., ⟨hsink, ?_, ?_⟩, ?_, ?_, ?_⟩
  · rw [propagation?_ofTexts, mergedRules, Option.isSome_map, isSome_head?_about]
  · rw [sink?_ofTexts, mergedSinks, Option.isSome_map, isSome_head?_about]
  · exact fun sink h => mem_arguments_mergedSinks (hsink.symm.trans h)
  · exact answersFrom_of_about mergedRules Rule.propagationTable_readsLines.append fun _ _ => propagation?_ofTexts ..
  · exact answersFrom_of_about List.getLast? Rule.sourceTable_readsLines.append fun _ _ => source?_ofTexts ..
  · exact answersFrom_of_about mergedSinks Rule.sinkTable_readsLines.append fun _ _ => sink?_ofTexts ..

/-- A sink of two lines around a malformed one and one about another method. -/
theorem ofTexts_merges_sink :
    let first := "net a.S.put(I)V 1 2 1"
    let rest := "log a.S.put(I)V 3 2 3 -1"
    let sink : SinkDefinition := ⟨"net", ⟨"a.S.put(I)V"⟩, [1, 2, 1, 3, -1]⟩
    (∀ a ∈ (Rule.sinkTable "net a.S.put(I)V x\nlog a.S.get()I 4").items, a.signature ≠ sink.signature) ∧
      (ofTexts "" "" (first ++ "\n" ++ rest)).sink? sink.signature = some sink ∧
      (ofTexts "" "" (first ++ "\n" ++ "net a.S.put(I)V x\nlog a.S.get()I 4" ++ "\n" ++ rest)).sink? sink.signature =
        some sink ∧
      ∀ i, i ∈ sink.arguments ↔
        ∃ line ∈ about sink.signature (·.signature) (Rule.sinkTable (first ++ "\n" ++ rest)), i ∈ line.arguments := by
  intro first rest sink
  have hother : ∀ a ∈ (Rule.sinkTable "net a.S.put(I)V x\nlog a.S.get()I 4").items, a.signature ≠ sink.signature := by
    decide +kernel
  have hsink : (ofTexts "" "" (first ++ "\n" ++ rest)).sink? sink.signature = some sink := by decide +kernel
  obtain ⟨_, _, ⟨_, _, hmem⟩, _, _, hanswers⟩ := ofTexts_merges "" "" (first ++ "\n" ++ rest) sink.signature
  exact ⟨hother, hsink, (hanswers first _ rest ("", "") ("", "") hother).trans hsink, hmem sink hsink⟩

end RuleTables

end SinkFlow
