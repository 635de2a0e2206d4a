import SinkFlow.Proofs.Analysis.Collection
import SinkFlow.Proofs.Build.Appending
import SinkFlow.Proofs.Propagation.Provenance

/-!
Constants know their literal and nothing else. The passes hand nothing to a constant. Collecting fields and naming
appended values do not look whether a node is one, but only views and values without a literal are listed for them.
-/

namespace SinkFlow

/-! ## Passes -/

namespace FlowGraph

variable {g built : FlowGraph} {n : NodeId} {i : Item} {l : Literal} {t : Setting}

theorem isOpen_eq_false (h : (g.node? n).bind Node.literal? = some l) : g.isOpen n = false := by
  obtain ⟨v, hv, hl⟩ := Option.bind_eq_some_iff.mp h
  simp [GraphTables.isOpen, hv, Node.isConstant, hl]

/-- A walk that ends in a node which cannot learn is over where it starts. -/
theorem Walk.eq_of_closed {a : NodeId} {path : Path} (h : g.Walk a path n) (hn : g.isOpen n = false) : a = n := by
  cases h with
  | here => rfl
  | step _ _ _ ho =>
      rw [hn] at ho
      cases ho

/-- A node that cannot learn knows after a propagation what it knew after seeding. -/
theorem has_complete_of_closed (hn : g.isOpen n = false) (cap : Nat) (i : Item) :
    ((Propagation.complete cap g).graph.factsAt n).has i ↔
      ((Propagation.seed { graph := g }).graph.factsAt n).has i := by
  constructor
  · intro hi
    obtain ⟨t, ht⟩ := Facts.trace?_of_has hi
    obtain ⟨a, path, hwalk, ha⟩ := ((Propagation.complete_accounted cap g).items n i t ht).walk
    rw [hwalk.eq_of_closed hn] at ha
    exact ha
  · exact (Propagation.grows_seeded cap g).facts n i

/-! ## Names -/

/-- Only values without a literal are on chains as nodes. -/
theorem Recorded.isOpen_operand {log : List StatementId} {r : StatementRef} (h : g.Recorded t log)
    (hn : .operand n r ∈ g.appended) : g.isOpen n := by
  obtain ⟨id, _, helement⟩ := List.mem_filterMap.mp (h.elements.mem_iff.mp hn)
  obtain ⟨⟨q, slot⟩, _, helement⟩ := Option.bind_eq_some_iff.mp helement
  obtain ⟨m, hm, helement⟩ := Option.map_eq_some_iff.mp helement
  unfold Program.element at helement
  split at helement
  case h_1 => cases helement
  case h_2 hliteral =>
    cases helement
    obtain ⟨l, hkind⟩ := h.traceable.wellFormed.found q slot n hm
    have hl : l = none := (h.traceable.literals n q slot l hkind).trans hliteral
    obtain ⟨v, hv, hkind⟩ := Option.map_eq_some_iff.mp hkind
    simp [GraphTables.isOpen, hv, Node.isConstant, Node.literal?, hkind, NodeKind.literal?, hl]

/-- In a graph whose chains have no constants as nodes, a constant is given its literal only. -/
theorem Seeds.eq_item (h : g.Seeds n i) (hchains : ∀ m r, .operand m r ∈ g.appended → g.isOpen m)
    (hl : (g.node? n).bind Node.literal? = some l) : i = l.item := by
  cases h with
  | literal h =>
      rw [hl] at h
      cases h
      rfl
  | @name chain name hchain hname hnode _ =>
      have helement : .operand name.node name.statement ∈ g.appended :=
        List.mem_flatMap.mpr ⟨chain, Array.mem_toList_iff.mpr hchain, AppendChain.mem_names hname⟩
      have hopen := hchains _ _ helement
      rw [hnode, isOpen_eq_false hl] at hopen
      cases hopen

/-! ## The three stages -/

theorem literal?_propagate {p : Program} {fields : FieldStats} {collected : FlowGraph} {cap : Nat}
    {stats : PropagationStats} (hcollect : built.collectFields p = (.ok fields, collected))
    (hprop : collected.propagate cap = .ok (stats, g)) (n : NodeId) :
    (g.node? n).bind Node.literal? = (built.node? n).bind Node.literal? :=
  congrArg (Option.bind · Node.literal?) ((shape_propagate hcollect hprop).node? n)

/-- A constant learns nothing when fields are collected. -/
theorem blank_collectFields {p : Program} {fields : FieldStats} {collected : FlowGraph} (hsound : GraphTables.Sound t built)
    (hblank : ∀ n i, (built.factsAt n).has i = false) (hcollect : built.collectFields p = (.ok fields, collected))
    (hn : built.isOpen n = false) (i : Item) : (collected.factsAt n).has i = false := by
  cases hi : (collected.factsAt n).has i with
  | false => rfl
  | true =>
      obtain ⟨u, hu⟩ := Facts.trace?_of_has hi
      have hnotes := (mem_fieldNotes.mp (trace?_collectFields hblank hcollect hu)).1
      rw [hnotes.isOpen hsound] at hn
      cases hn

/-- Whatever is built, from whatever program its static initializers are taken and wherever the passes are stopped, a
constant knows nothing before the propagation, and from its start to the end its own literal and nothing else. -/
theorem constants_keep {e : EntrypointId} {t : Setting} {cancelled : Bool} {stats : BuildStats}
    (hbuild : (({ entrypoint := e } : FlowGraph).build t cancelled).result = .ok stats) (p : Program) (cap : Nat) :
    let built := (({ entrypoint := e } : FlowGraph).build t cancelled).graph
    ∃ fields collected propagation g, built.collectFields p = (.ok fields, collected) ∧
      collected.propagate cap = .ok (propagation, g) ∧
      ∀ n l, (g.node? n).bind Node.literal? = some l →
        (∀ i, (collected.factsAt n).has i = false) ∧
          (∀ i, ((Propagation.seed { graph := collected }).graph.factsAt n).has i ↔ i = l.item) ∧
          ∀ i, (g.factsAt n).has i ↔ i = l.item := by
  intro built
  have hsound : GraphTables.Sound t built := sound_build hbuild
  obtain ⟨fields, collected, hcollect⟩ := exists_collectFields hsound p
  have hcollected := shape_collectFields hcollect
  have hprop : collected.propagate cap = .ok ((Propagation.complete cap collected).stats, _) :=
    propagate_eq_ok_iff.mpr ⟨hcollected.phase, rfl, rfl⟩
  refine ⟨fields, collected, _, _, hcollect, hprop, fun n l hl => ?_⟩
  have hliteral : (built.node? n).bind Node.literal? = some l := (literal?_propagate hcollect hprop n).symm.trans hl
  have hopen : ∀ m, collected.isOpen m = built.isOpen m := hcollected.isOpen
  have hclosed : built.isOpen n = false := isOpen_eq_false hliteral
  have hblank := blank_collectFields hsound (drawn_build hbuild).blank hcollect hclosed
  have hchains : ∀ m r, .operand m r ∈ collected.appended → collected.isOpen m := by
    intro m r hm
    rw [GraphTables.appended_congr hcollected.chains] at hm
    rw [hopen]
    exact (recorded_build hbuild).isOpen_operand hm
  have hseeded : ∀ i, ((Propagation.seed { graph := collected }).graph.factsAt n).has i ↔ i = l.item := by
    intro i
    have hl : (collected.node? n).bind Node.literal? = some l := hcollected.node? n ▸ hliteral
    rw [Propagation.has_seed, hblank i]
    constructor
    · rintro (hi | hseeds)
      · cases hi
      · exact hseeds.eq_item hchains hl
    · rintro rfl
      exact .inr (.literal hl)
  refine ⟨hblank, hseeded, fun i => ?_⟩
  rw [factsAt_propagate hprop, has_complete_of_closed ((hopen n).trans hclosed), hseeded]

/-- A method whose result is sensitive. -/
def keyMethod : MethodSignature := ⟨"app.Keys.load()Ljava/lang/String;"⟩

/-- A static field that its initializer writes too. -/
def labelField : FieldSignature := ⟨"app.Label", "text"⟩

/-- A program that appends a text and a sensitive result to a string builder, stores the text in a static field that it
reads again, joins both into the text and leaks a number. -/
def labelProgram : Program := GraphDocument.program
  { statements :=
      [⟨0, 0, .normal (.invoke ⟨keyMethod, true, [], some 1, true⟩)⟩,
        ⟨1, 0, .normal (.invoke ⟨appendMethod, false, [2, 3], some 2, true⟩)⟩,
        ⟨2, 0, .normal (.invoke ⟨appendMethod, false, [2, 1], some 2, true⟩)⟩,
        ⟨3, 0, .normal (.putField none 3 labelField)⟩, ⟨4, 0, .normal (.getField 4 none labelField)⟩,
        ⟨5, 0, .normal (.invoke ⟨Analysis.sendMethod, true, [5], none, true⟩)⟩, ⟨6, 0, .phi 3 [some 1, some 4]⟩]
    edges := [(0, 1), (1, 2), (2, 3), (3, 4), (4, 5), (5, 6)]
    literals := [⟨0, 3, .text "key="⟩, ⟨0, 5, .constant (.int 7)⟩, ⟨9, 1, .text "none"⟩]
    initializers := [("app.Label", ⟨9, [⟨[.putField none 1 labelField], []⟩]⟩)]
    rootProcedure := some 0 }

def labelSetting : Setting where
  program := labelProgram
  config := {}
  rules := { Analysis.sendRules with sources := Table.ofEntries [(keyMethod, ⟨keyMethod, "KEY"⟩)] }

/-- Three of the nodes of the program are constants: the sensitive result, the text and the number. -/
theorem labelSetting_build :
    let outcome := ({ entrypoint := 0 } : FlowGraph).build labelSetting false
    outcome.result.toOption.isSome ∧ (outcome.graph.node? 1).bind Node.literal? = some (.text "KEY") ∧
      (outcome.graph.node? 3).bind Node.literal? = some (.text "key=") ∧
      (outcome.graph.node? 7).bind Node.literal? = some (.constant (.int 7)) := by
  decide +kernel

theorem labelSetting_keeps :
    let built := (({ entrypoint := 0 } : FlowGraph).build labelSetting false).graph
    (∃ stats, (({ entrypoint := 0 } : FlowGraph).build labelSetting false).result = .ok stats) ∧
      ∃ fields collected propagation g, built.collectFields labelProgram = (.ok fields, collected) ∧
        collected.propagate 0 = .ok (propagation, g) ∧ (∀ i, (g.factsAt 1).has i ↔ i = .text "KEY") ∧
        (∀ i, (g.factsAt 3).has i ↔ i = .text "key=") ∧ ∀ i, (g.factsAt 7).has i ↔ i = .constant (.int 7) := by
  dsimp only
  obtain ⟨hbuilt, hkey, htext, hnumber⟩ := labelSetting_build
  obtain ⟨stats, hstats⟩ := Option.isSome_iff_exists.mp hbuilt
  have hbuild := eq_ok_of_toOption hstats
  obtain ⟨fields, collected, propagation, g, hcollect, hprop, hkeep⟩ := constants_keep hbuild labelProgram 0
  have hliteral := literal?_propagate hcollect hprop
  have hkey := hkeep 1 (.text "KEY") ((hliteral 1).trans hkey)
  have htext := hkeep 3 (.text "key=") ((hliteral 3).trans htext)
  have hnumber := hkeep 7 (.constant (.int 7)) ((hliteral 7).trans hnumber)
  exact ⟨⟨stats, hbuild⟩, fields, collected, propagation, g, hcollect, hprop, hkey.2.2, htext.2.2, hnumber.2.2⟩

end FlowGraph

end SinkFlow
