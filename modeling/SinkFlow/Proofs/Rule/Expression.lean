import SinkFlow.Proofs.Text
import SinkFlow.Rule.Reader

/-!
Which texts are rules. A text is read as a rule just if it is an operator between two operand indices, and it is one in
at most one way; what is written for a rule is read as that rule.
-/

namespace SinkFlow.Rule

variable {cs left right : List Char} {i : Int} {rule : PropagationRule}

/-! ## Operand indices -/

/-- How an integer is written: in decimal digits, perhaps behind a sign. -/
inductive Numeral : List Char → Int → Prop where
  | unsigned {ds : List Char} (h : Text.Digits ds) : Numeral ds (Nat.ofDigitChars 10 ds 0)
  | plus {ds : List Char} (h : Text.Digits ds) : Numeral ('+' :: ds) (Nat.ofDigitChars 10 ds 0)
  | minus {ds : List Char} (h : Text.Digits ds) : Numeral ('-' :: ds) (-Nat.ofDigitChars 10 ds 0)

/-- The result of a call or one of its operands. -/
def IsIndex (i : Int) : Prop := -1 ≤ i ∧ i ≤ 2147483647

/-- An operand index, perhaps with blanks around it. -/
def Operand (cs : List Char) (i : Int) : Prop :=
  IsIndex i ∧ ∃ front numeral back, (∀ c ∈ front, Text.isBlank c) ∧ (∀ c ∈ back, Text.isBlank c) ∧
    Numeral numeral i ∧ cs = front ++ numeral ++ back

theorem Numeral.ne_nil (h : Numeral cs i) : cs ≠ [] := by
  cases h with
  | unsigned h => exact h.1
  | plus _ | minus _ => exact List.cons_ne_nil _ _

/-- The characters of a numeral. -/
theorem Numeral.mem {c : Char} (h : Numeral cs i) (hc : c ∈ cs) : c.isDigit ∨ c = '+' ∨ c = '-' := by
  cases h with
  | unsigned h => exact .inl (h.2 c hc)
  | plus h | minus h =>
      rcases List.mem_cons.mp hc with rfl | hc
      · simp
      · exact .inl (h.2 c hc)

theorem Numeral.not_isBlank {c : Char} (h : Numeral cs i) (hc : c ∈ cs) : Text.isBlank c = false := by
  rcases h.mem hc with hdigit | rfl | rfl
  · exact Text.not_isBlank_of_isDigit hdigit
  all_goals rfl

theorem integer?_eq_some_iff : integer? cs = some i ↔ Numeral cs i := by
  constructor
  · intro h
    unfold integer? at h
    split at h
    all_goals
      obtain ⟨n, hn, rfl⟩ := Option.map_eq_some_iff.mp h
      obtain ⟨hdigits, rfl⟩ := Text.number?_ten_eq_some_iff.mp hn
    · exact .minus hdigits
    · exact .plus hdigits
    · exact .unsigned hdigits
  · intro h
    cases h with
    | unsigned h =>
      unfold integer?
      split
      · simpa using h.2 '-'
      · simpa using h.2 '+'
      · simp [Text.number?_ten_eq_some_iff.mpr ⟨h, rfl⟩]
    | plus h => simp [integer?, Text.number?_ten_eq_some_iff.mpr ⟨h, rfl⟩]
    | minus h => simp [integer?, Text.number?_ten_eq_some_iff.mpr ⟨h, rfl⟩]

theorem operand_iff_trim : Operand cs i ↔ IsIndex i ∧ Numeral (Text.trim cs) i := by
  refine and_congr_right fun _ => ⟨?_, fun h => ?_⟩
  · rintro ⟨front, numeral, back, hfront, hback, h, hcs⟩
    rwa [(Text.trim_eq_iff h.ne_nil fun _ => h.not_isBlank).mpr ⟨front, back, hfront, hback, hcs⟩]
  · obtain ⟨front, back, hfront, hback, hcs⟩ := (Text.trim_eq_iff h.ne_nil fun _ => h.not_isBlank).mp rfl
    exact ⟨front, _, back, hfront, hback, h, hcs⟩

/-- A text is read as an operand index just if it is one. -/
theorem index_eq_ok_iff : index cs = .ok i ↔ Operand cs i := by
  have hmin : Int32.minValue.toInt = -2147483648 := rfl
  have hmax : Int32.maxValue.toInt = 2147483647 := rfl
  rw [operand_iff_trim, index, hmin, hmax]
  cases h : integer? (Text.trim cs) with
  | none =>
      have hno : ¬Numeral (Text.trim cs) i := fun hnumeral => by simp [integer?_eq_some_iff.mpr hnumeral] at h
      simp [hno]
  | some j =>
      rw [← integer?_eq_some_iff, h, IsIndex]
      grind

/-! ## Expressions -/

/-- Characters that operators are written with. -/
def isOperatorChar (c : Char) : Bool := c = '<' ∨ c = '=' ∨ c = '>'

/-- An operator between two operand indices. -/
structure Splits (cs left : List Char) (rule : PropagationRule) (right : List Char) : Prop where
  text : cs = left ++ rule.operator.token.toList ++ right
  left : Operand left rule.left
  right : Operand right rule.right

theorem isOperatorChar_token (op : RuleOperator) : op.token.toList.all isOperatorChar := by
  cases op <;> decide

theorem Operand.not_isOperatorChar (h : Operand cs i) : ∀ c ∈ cs, isOperatorChar c = false := by
  obtain ⟨_, front, numeral, back, hfront, hback, hnumeral, rfl⟩ := h
  intro c hc
  have hkind : Text.isBlank c ∨ c.isDigit ∨ c = '+' ∨ c = '-' := by
    rcases List.mem_append.mp hc with hc | hc
    · exact (List.mem_append.mp hc).imp (hfront c) hnumeral.mem
    · exact .inl (hback c hc)
  refine Bool.eq_false_iff.mpr fun hop => ?_
  obtain rfl | rfl | rfl : c = '<' ∨ c = '=' ∨ c = '>' := of_decide_eq_true hop
  all_goals revert hkind; decide

namespace Splits

theorem cutAt_self (h : Splits cs left rule right) :
    Text.cutAt rule.operator.token.toList cs = some (left, right) := by
  obtain ⟨t, ts, htoken⟩ : ∃ t ts, rule.operator.token.toList = t :: ts := by cases rule.operator <;> exact ⟨_, _, rfl⟩
  have hop : isOperatorChar t := List.all_eq_true.mp (isOperatorChar_token rule.operator) t (by simp [htoken])
  have hnot : t ∉ left := fun ht => by simp [h.left.not_isOperatorChar t ht] at hop
  rw [h.text, htoken, Text.cutAt_append hnot]

/-- An operator that is no part of the one in the middle does not occur at all. -/
theorem cutAt_other (h : Splits cs left rule right) {other : RuleOperator}
    (hother : ¬other.token.toList <:+: rule.operator.token.toList) : Text.cutAt other.token.toList cs = none := by
  refine Text.cutAt_eq_none fun hinfix => hother ?_
  have hside {cs : List Char} {i : Int} (h : Operand cs i) : cs.filter isOperatorChar = [] :=
    List.filter_eq_nil_iff.mpr (by simpa using h.not_isOperatorChar)
  have htoken (op : RuleOperator) : op.token.toList.filter isOperatorChar = op.token.toList :=
    List.filter_eq_self.mpr (List.all_eq_true.mp (isOperatorChar_token op))
  have hfiltered := hinfix.filter isOperatorChar
  rwa [h.text, List.filter_append, List.filter_append, hside h.left, hside h.right, htoken, htoken, List.nil_append,
    List.append_nil] at hfiltered

theorem cutOperator_eq (h : Splits cs left rule right) :
    cutOperator cs operators = some (left, rule.operator, right) := by
  have hself := h.cutAt_self
  have hother (other : RuleOperator) (hno : ¬other.token.toList <:+: rule.operator.token.toList) :
      Text.cutAt other.token.toList cs = none := h.cutAt_other hno
  generalize rule.operator = op at hself hother
  -- None of the operators that are looked for earlier is a part of a later one.
  cases op with
  | both => simp only [operators, cutOperator, hself]
  | blocked => simp only [operators, cutOperator, hself, hother .both (by decide)]
  | intoLeft => simp only [operators, cutOperator, hself, hother .both (by decide), hother .blocked (by decide)]
  | intoRight =>
      simp only [operators, cutOperator, hself, hother .both (by decide), hother .blocked (by decide),
        hother .intoLeft (by decide)]

end Splits

theorem eq_append_of_cutOperator {op : RuleOperator} {ops : List RuleOperator}
    (h : cutOperator cs ops = some (left, op, right)) : cs = left ++ op.token.toList ++ right := by
  induction ops with
  | nil => cases h
  | cons o ops ih =>
      rw [cutOperator] at h
      split at h
      · rename_i hcut
        obtain ⟨rfl, rfl, rfl⟩ := by simpa using h
        exact Text.eq_append_of_cutAt hcut
      · exact ih h

theorem expression_eq_ok_iff : expression cs = .ok rule ↔ ∃ left right, Splits cs left rule right := by
  constructor
  · intro h
    unfold expression at h
    split at h
    · rename_i left op right hcut
      cases hl : index left with
      | error e => rw [hl] at h; cases h
      | ok l =>
          cases hr : index right with
          | error e => rw [hl, hr] at h; cases h
          | ok r =>
              rw [hl, hr] at h
              cases h
              exact ⟨left, right, eq_append_of_cutOperator hcut, index_eq_ok_iff.mp hl, index_eq_ok_iff.mp hr⟩
    · cases h
  · rintro ⟨left, right, h⟩
    rw [expression, h.cutOperator_eq]
    simp only [index_eq_ok_iff.mpr h.left, index_eq_ok_iff.mpr h.right]
    rfl

theorem Splits.unique {left' right' : List Char} {rule' : PropagationRule} (h : Splits cs left rule right)
    (h' : Splits cs left' rule' right') : left = left' ∧ rule = rule' ∧ right = right' := by
  have hcut := h.cutOperator_eq.symm.trans h'.cutOperator_eq
  have hread := (expression_eq_ok_iff.mpr ⟨left, right, h⟩).symm.trans (expression_eq_ok_iff.mpr ⟨left', right', h'⟩)
  simp only [Option.some.injEq, Prod.mk.injEq] at hcut
  exact ⟨hcut.1, Except.ok.inj hread, hcut.2.2⟩

/-! ## Writing -/

theorem numeral_repr (i : Int) : Numeral (Int.repr i).toList i := by
  have hnat (n : Nat) : Nat.ofDigitChars 10 n.repr.toList 0 = n ∧ Text.Digits n.repr.toList := by
    rw [Nat.toList_repr]
    exact ⟨Nat.ofDigitChars_ten_toDigits, Text.digits_toDigits n⟩
  cases i with
  | ofNat n =>
      have h := Numeral.unsigned (hnat n).2
      rwa [(hnat n).1] at h
  | negSucc n =>
      have h := Numeral.minus (hnat (n + 1)).2
      rw [(hnat (n + 1)).1] at h
      simpa [Int.repr, Int.negSucc_eq] using h

theorem operand_repr (h : IsIndex i) : Operand (Int.repr i).toList i :=
  ⟨h, [], _, [], by simp, by simp, numeral_repr i, by simp⟩

theorem expression_render (hl : IsIndex rule.left) (hr : IsIndex rule.right) :
    expression rule.render.toList = .ok rule :=
  expression_eq_ok_iff.mpr ⟨_, _, by simp [PropagationRule.render], operand_repr hl, operand_repr hr⟩

/-- A text is read as a rule just if it is the rule's operator between its two operand indices, which it is in at most
one way; all other texts are refused. What is written for a rule is read as this rule. -/
theorem expression_exact :
    (∀ cs rule, expression cs = .ok rule ↔ ∃ left right, Splits cs left rule right) ∧
      (∀ cs left rule right left' rule' right', Splits cs left rule right → Splits cs left' rule' right' →
        left = left' ∧ rule = rule' ∧ right = right') ∧
      (∀ cs, (∃ e, expression cs = .error e) ↔ ¬∃ left rule right, Splits cs left rule right) ∧
      ∀ rule : PropagationRule, IsIndex rule.left → IsIndex rule.right →
        expression rule.render.toList = .ok rule := by
  refine ⟨fun _ _ => expression_eq_ok_iff, fun _ _ _ _ _ _ _ => Splits.unique, fun cs => ?_, fun _ => expression_render⟩
  constructor
  · rintro ⟨e, he⟩ ⟨left, rule, right, h⟩
    rw [expression_eq_ok_iff.mpr ⟨left, right, h⟩] at he
    cases he
  · intro hno
    cases h : expression cs with
    | error e => exact ⟨e, rfl⟩
    | ok rule =>
        obtain ⟨left, right, hsplits⟩ := expression_eq_ok_iff.mp h
        exact absurd ⟨left, rule, right, hsplits⟩ hno

theorem expression_exact_of_signs :
    let rule : PropagationRule := ⟨2147483647, .both, -1⟩
    Splits "+2147483647<=> -01".toList "+2147483647".toList rule " -01".toList ∧
      expression "+2147483647<=> -01".toList = .ok rule ∧
      (∀ left other right, Splits "+2147483647<=> -01".toList left other right → left = "+2147483647".toList) ∧
      IsIndex rule.left ∧ IsIndex rule.right ∧ expression "2147483647<=>-1".toList = .ok rule := by
  intro rule
  obtain ⟨hread, hunique, _, hrender⟩ := expression_exact
  have hleft : IsIndex rule.left := ⟨by decide, by decide⟩
  have hright : IsIndex rule.right := ⟨by decide, by decide⟩
  have hmax : Text.Digits "2147483647".toList := by decide +kernel
  have hone : Text.Digits "01".toList := by decide +kernel
  have hsplits : Splits "+2147483647<=> -01".toList "+2147483647".toList rule " -01".toList :=
    { text := by decide +kernel
      left := ⟨hleft, [], _, [], by simp, by simp, .plus hmax, by decide +kernel⟩
      right := ⟨hright, [' '], _, [], List.forall_mem_singleton.mpr rfl, by simp, .minus hone, by decide +kernel⟩ }
  refine ⟨hsplits, (hread _ _).mpr ⟨_, _, hsplits⟩, ?_, hleft, hright, hrender rule hleft hright⟩
  exact fun left other right h => (hunique _ _ _ _ _ _ _ h hsplits).1

end SinkFlow.Rule
