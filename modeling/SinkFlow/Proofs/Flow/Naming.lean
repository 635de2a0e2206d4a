import SinkFlow.Flow.Append
import Mathlib.Data.List.DropRight

/-!
Which appended nodes get a name, and which one. The name of a node is what the pattern `([A-Za-z0-9_.\-]+)=$` keeps of
the text since the node before it: the longest name right before an equals sign at the end of that text.
-/

namespace SinkFlow

namespace Pattern

variable {p : Char → Bool} {cs taken rest : List Char} {w : Way}

theorem mem_runs : (taken, rest) ∈ runs p cs ↔ taken ≠ [] ∧ (∀ c ∈ taken, p c) ∧ cs = taken ++ rest := by
  induction cs generalizing taken with
  | nil => cases taken <;> simp [runs]
  | cons c cs ih =>
      cases taken with
      | nil => simp [runs]
      | cons d ds =>
          have hlonger :
              (d :: ds, rest) ∈ (runs p cs).map (fun r => (c :: r.1, r.2)) ↔ (ds, rest) ∈ runs p cs ∧ c = d := by simp
          cases hc : p c with
          | false => grind [runs]
          | true =>
              simp only [runs, hc, ↓reduceIte, List.mem_append, hlonger, ih, List.mem_singleton]
              grind

end Pattern

namespace AppendChain

/-- A text that is nothing but a name and an equals sign. -/
def OnlyNames (cs name : List Char) : Prop := name ≠ [] ∧ (∀ c ∈ name, isNameChar c) ∧ cs = name ++ ['=']

variable {cs name : List Char} {w : Pattern.Way}

theorem ways_equalsAtEnd (cs : List Char) :
    (Pattern.seq (.one (· = '=')) .finish).ways cs = if cs = ['='] then [⟨['='], none, []⟩] else [] := by
  rcases cs with _ | ⟨c, _ | ⟨d, ds⟩⟩
  · rfl
  · by_cases hc : c = '=' <;> simp [Pattern.ways, hc]
  · by_cases hc : c = '=' <;> simp [Pattern.ways, hc]

theorem mem_ways_namePattern : w ∈ namePattern.ways cs ↔ ∃ name, OnlyNames cs name ∧ w = ⟨cs, some name, []⟩ := by
  constructor
  · intro h
    obtain ⟨v, hv, hw⟩ := List.mem_flatMap.mp h
    obtain ⟨u, hu, rfl⟩ := List.mem_map.mp hv
    obtain ⟨⟨name, rest⟩, hruns, rfl⟩ := List.mem_map.mp hu
    obtain ⟨hne, hall, rfl⟩ := Pattern.mem_runs.mp hruns
    rw [ways_equalsAtEnd] at hw
    split at hw
    · rename_i hrest
      dsimp only at hrest
      subst hrest
      exact ⟨name, ⟨hne, hall, rfl⟩, by simpa using hw⟩
    · simp at hw
  · rintro ⟨name, ⟨hne, hall, rfl⟩, rfl⟩
    have hruns : (name, ['=']) ∈ Pattern.runs isNameChar (name ++ ['=']) := Pattern.mem_runs.mpr ⟨hne, hall, rfl⟩
    have hgroup : ⟨name, some name, ['=']⟩ ∈ (Pattern.group (.many isNameChar)).ways (name ++ ['=']) :=
      List.mem_map.mpr ⟨_, List.mem_map.mpr ⟨_, hruns, rfl⟩, rfl⟩
    exact List.mem_flatMap.mpr ⟨_, hgroup, by simp [ways_equalsAtEnd]⟩

theorem head?_ways_namePattern (h : OnlyNames cs name) : (namePattern.ways cs).head? = some ⟨cs, some name, []⟩ := by
  have hmem : ⟨cs, some name, []⟩ ∈ namePattern.ways cs := mem_ways_namePattern.mpr ⟨name, h, rfl⟩
  cases hways : namePattern.ways cs with
  | nil => simp [hways] at hmem
  | cons v vs =>
      have hv : v ∈ namePattern.ways cs := by simp [hways]
      obtain ⟨name', hname', rfl⟩ := mem_ways_namePattern.mp hv
      have hsame : name' = name := List.append_cancel_right (hname'.2.2.symm.trans h.2.2)
      rw [hsame, List.head?_cons]

theorem ways_namePattern_eq_nil (h : ∀ name, ¬OnlyNames cs name) : namePattern.ways cs = [] := by
  refine List.eq_nil_iff_forall_not_mem.mpr fun w hw => ?_
  obtain ⟨name, hname, _⟩ := mem_ways_namePattern.mp hw
  exact h name hname

/-- The longest name right before an equals sign at the end of a text. -/
def Trails (run name : List Char) : Prop :=
  name ≠ [] ∧ (∀ c ∈ name, isNameChar c) ∧
    ∃ front, run = front ++ name ++ ['='] ∧ ∀ c ∈ front.getLast?, isNameChar c = false

theorem OnlyNames.trails_iff {other : List Char} (h : OnlyNames cs name) : Trails cs other ↔ other = name := by
  obtain ⟨hne, hall, rfl⟩ := h
  constructor
  · rintro ⟨_, _, front, hrun, hfront⟩
    have hsplit : name = front ++ other := List.append_cancel_right hrun
    rcases List.eq_nil_or_concat front with rfl | ⟨front, c, rfl⟩
    · exact hsplit.symm
    · -- The character right before the shorter name would be one of the longer name.
      have hc : isNameChar c = false := hfront c (by simp)
      simp [hall c (by simp [hsplit])] at hc
  · rintro rfl
    exact ⟨hne, hall, [], rfl, by simp⟩

theorem not_trails_nil : ¬Trails [] name := by
  rintro ⟨_, _, front, hrun, _⟩
  simp at hrun

theorem trails_cons_iff {c : Char} (h : ∀ name, ¬OnlyNames (c :: cs) name) :
    Trails (c :: cs) name ↔ Trails cs name := by
  constructor
  · rintro ⟨hne, hall, front, hrun, hfront⟩
    cases front with
    | nil => exact absurd ⟨hne, hall, hrun⟩ (h name)
    | cons d front =>
        refine ⟨hne, hall, front, (List.cons.inj hrun).2, fun e he => hfront e ?_⟩
        rw [List.getLast?_cons, Option.mem_def.mp he]
        rfl
  · rintro ⟨hne, hall, front, rfl, hfront⟩
    refine ⟨hne, hall, c :: front, rfl, fun e he => ?_⟩
    cases front with
    | nil =>
        -- A name that could be made longer by `c` would take up the whole text.
        obtain rfl : c = e := by simpa using he
        by_contra hc
        exact h (c :: name) ⟨by simp, by simpa using ⟨by simpa using hc, hall⟩, by simp⟩
    | cons d front => exact hfront e (by simpa [List.getLast?_cons] using he)

/-- The pattern keeps the longest name at the end, since the search from the left finds the longest match first. -/
theorem keptName?_eq_some_iff : keptName? cs = some name ↔ Trails cs name := by
  induction cs with
  | nil =>
      have hnone : ∀ name, ¬OnlyNames [] name := fun name h => by simpa using h.2.2
      simp [keptName?, Pattern.search, ways_namePattern_eq_nil hnone, not_trails_nil]
  | cons c cs ih =>
      by_cases h : ∃ whole, OnlyNames (c :: cs) whole
      · obtain ⟨whole, h⟩ := h
        simp [keptName?, Pattern.search, head?_ways_namePattern h, h.trails_iff, eq_comm]
      · have hnone : ∀ name, ¬OnlyNames (c :: cs) name := fun name hname => h ⟨name, hname⟩
        simpa [keptName?, Pattern.search, ways_namePattern_eq_nil hnone, trails_cons_iff hnone] using ih

/-! ## Chains -/

/-- Whether an element is a literal. -/
def isLiteral : AppendElement → Bool
  | .literal _ => true
  | .operand _ _ => false

/-- The text of a literal; that of a node is not known. -/
def literalText : AppendElement → List Char
  | .literal t => t.toList
  | .operand _ _ => []

/-- The text that the literals after the last node add up to. -/
def textSinceNode (es : List AppendElement) : List Char := (es.rtakeWhile isLiteral).flatMap literalText

/-- The entry for an element behind others: a node gets the name that the pattern keeps of the text since the node
before it. -/
def entryAfter? (front : List AppendElement) : AppendElement → Option AppendName
  | .literal _ => none
  | .operand node statement =>
    (keptName? (textSinceNode front)).map fun name => ⟨node, String.ofList name, statement⟩

/-- The entry for the element at a position. -/
def entryAt? (c : AppendChain) (i : Nat) : Option AppendName :=
  c.elements[i]?.bind (entryAfter? (c.elements.take i))

/-- At a position stands the node of an entry, appended by its statement, and its name ends the text before it. -/
structure IsEntry (c : AppendChain) (i : Nat) (entry : AppendName) : Prop where
  operand : c.elements[i]? = some (.operand entry.node entry.statement)
  name : Trails (textSinceNode (c.elements.take i)) entry.name.toList

variable {c : AppendChain} {i : Nat} {entry : AppendName}

@[simp] theorem textSinceNode_nil : textSinceNode [] = [] := rfl

@[simp] theorem textSinceNode_literal (es : List AppendElement) (t : String) :
    textSinceNode (es ++ [.literal t]) = textSinceNode es ++ t.toList := by
  have hliteral : isLiteral (.literal t) := rfl
  rw [textSinceNode, List.rtakeWhile_concat_pos _ _ _ hliteral, List.flatMap_append, List.flatMap_singleton]
  rfl

@[simp] theorem textSinceNode_operand (es : List AppendElement) (node : NodeId) (statement : StatementRef) :
    textSinceNode (es ++ [.operand node statement]) = [] := by
  have hoperand : ¬isLiteral (.operand node statement) := Bool.false_ne_true
  rw [textSinceNode, List.rtakeWhile_concat_neg _ _ _ hoperand, List.flatMap_nil]

theorem entryAt?_eq_some_iff : c.entryAt? i = some entry ↔ c.IsEntry i entry := by
  obtain ⟨node, name, statement⟩ := entry
  constructor
  · intro h
    obtain ⟨e, he, hentry⟩ := Option.bind_eq_some_iff.mp h
    cases e with
    | literal t => cases hentry
    | operand node' statement' =>
        obtain ⟨name', hname, heq⟩ := Option.map_eq_some_iff.mp hentry
        obtain ⟨rfl, rfl, rfl⟩ := AppendName.mk.inj heq
        exact ⟨he, by simpa using keptName?_eq_some_iff.mp hname⟩
  · rintro ⟨hoperand, hname⟩
    simp [entryAt?, hoperand, entryAfter?, keptName?_eq_some_iff.mpr hname]

theorem namesFrom_cons (front : List AppendElement) (e : AppendElement) (es : List AppendElement) :
    namesFrom (textSinceNode front) (e :: es) =
      (entryAfter? front e).toList ++ namesFrom (textSinceNode (front ++ [e])) es := by
  cases e with
  | literal t => simp [namesFrom, entryAfter?]
  | operand node statement =>
      rw [namesFrom, entryAfter?, textSinceNode_operand]
      cases keptName? (textSinceNode front) <;> rfl

theorem namesFrom_eq_filterMap (front es : List AppendElement) :
    namesFrom (textSinceNode front) es =
      (List.range es.length).filterMap fun i => entryAt? ⟨front ++ es⟩ (front.length + i) := by
  induction es generalizing front with
  | nil => rfl
  | cons e es ih =>
      have hhead : entryAt? ⟨front ++ e :: es⟩ (front.length + 0) = entryAfter? front e := by simp [entryAt?]
      have htail := ih (front ++ [e])
      rw [List.append_assoc, List.singleton_append, List.length_append, List.length_singleton] at htail
      rw [namesFrom_cons, htail, List.length_cons, List.range_succ_eq_map, List.filterMap_cons, hhead,
        List.filterMap_map]
      simp only [Function.comp_def, Nat.add_assoc, Nat.add_comm 1, Nat.succ_eq_add_one]
      cases entryAfter? front e <;> rfl

/-- What is named behind some elements depends on them only by the text since their last node. -/
theorem namesFrom_append (front es back : List AppendElement) :
    namesFrom (textSinceNode front) (es ++ back) =
      namesFrom (textSinceNode front) es ++ namesFrom (textSinceNode (front ++ es)) back := by
  induction es generalizing front with
  | nil => simp [namesFrom]
  | cons e es ih => simp [namesFrom_cons, ih (front ++ [e])]

theorem names_append (front back : List AppendElement) :
    names ⟨front ++ back⟩ = names ⟨front⟩ ++ namesFrom (textSinceNode front) back := namesFrom_append [] front back

/-- The names of a chain are, in the order of its elements, those of exactly the nodes with a name at the end of the
text since the node before them. How this text is cut into literals makes no difference, nor what comes before that
node. -/
theorem names_exact :
    (∀ c : AppendChain, c.names = (List.range c.elements.length).filterMap c.entryAt?) ∧
      (∀ (c : AppendChain) i entry, c.entryAt? i = some entry ↔ c.IsEntry i entry) ∧
      (∀ front a b back,
        names ⟨front ++ .literal (a ++ b) :: back⟩ = names ⟨front ++ .literal a :: .literal b :: back⟩) ∧
      ∀ front node statement back, names ⟨front ++ .operand node statement :: back⟩ =
        names ⟨front ++ [.operand node statement]⟩ ++ names ⟨back⟩ := by
  refine ⟨fun c => ?_, fun c i entry => entryAt?_eq_some_iff, fun front a b back => ?_,
    fun front node statement back => ?_⟩
  · simpa [names] using namesFrom_eq_filterMap [] c.elements
  · simp [names_append, namesFrom]
  · rw [← List.singleton_append, ← List.append_assoc, names_append, textSinceNode_operand]
    rfl

example : names ⟨[.literal "a=b&tok", .literal "en=", .operand 5 ⟨0, 4⟩, .literal "=", .operand 6 ⟨0, 5⟩]⟩ =
    [⟨5, "token", ⟨0, 4⟩⟩] := by decide +kernel

end AppendChain

end SinkFlow
