import SinkFlow.Text.Blank
import SinkFlow.Text.Digits
import Mathlib.Data.List.DropRight
import Mathlib.Data.List.Infix
import Mathlib.Data.List.TakeWhile

/-!
What reading texts gives: digits stand for their number, trimming takes the blanks off, words are what is left between
blanks, and a token is found where it occurs first.
-/

namespace SinkFlow.Text

/-! ## Digits -/

/-- One or more decimal digits. -/
def Digits (cs : List Char) : Prop := cs ≠ [] ∧ ∀ c ∈ cs, c.isDigit

instance (cs : List Char) : Decidable (Digits cs) :=
  decidable_of_iff (!cs.isEmpty && cs.all Char.isDigit) (by simp [Digits])

variable {c : Char} {cs core front back token : List Char} {d n m : Nat}

theorem digit?_ten_eq_some_iff : digit? 10 c = some d ↔ c.isDigit ∧ c.toNat - '0'.toNat = d := by
  have hle : ∀ a b : Char, a ≤ b ↔ a.toNat ≤ b.toNat := fun _ _ => Iff.rfl
  simp only [digit?, Char.isDigit_iff_toNat, hle, Option.filter_eq_some_iff, decide_eq_true_eq, Char.reduceToNat]
  -- A letter stands for ten at least.
  split_ifs <;> grind

theorem numberFrom_ten_eq_some_iff :
    numberFrom 10 n cs = some m ↔ (∀ c ∈ cs, c.isDigit) ∧ Nat.ofDigitChars 10 cs n = m := by
  induction cs generalizing n with
  | nil => simp [numberFrom]
  | cons c cs ih =>
      simp only [numberFrom, Option.bind_eq_some_iff, digit?_ten_eq_some_iff, ih, Nat.ofDigitChars_cons,
        Nat.mul_comm 10]
      simp [and_assoc]

theorem number?_ten_eq_some_iff : number? 10 cs = some n ↔ Digits cs ∧ Nat.ofDigitChars 10 cs 0 = n := by
  cases cs with
  | nil => simp [number?, Digits]
  | cons c cs => simp [number?, numberFrom_ten_eq_some_iff, Digits]

theorem digits_toDigits (n : Nat) : Digits (Nat.toDigits 10 n) :=
  ⟨Nat.toDigits_ne_nil, fun _ hc => Nat.isDigit_of_mem_toDigits (by decide) (by decide) hc⟩

/-! ## Blanks -/

theorem not_isBlank_of_isDigit (h : c.isDigit) : isBlank c = false := by
  simp only [Char.isDigit_iff_toNat, Char.reduceToNat] at h
  simp only [isBlank]
  grind

theorem dropWhile_append_of_not {p : Char → Bool} (hfront : ∀ c ∈ front, p c) (hne : core ≠ [])
    (hcore : ∀ c ∈ core, p c = false) (back : List Char) :
    (front ++ (core ++ back)).dropWhile p = core ++ back := by
  obtain ⟨c, rest, rfl⟩ := List.exists_cons_of_ne_nil hne
  rw [List.dropWhile_append_of_pos hfront, List.cons_append, List.dropWhile_cons_of_neg]
  simpa using hcore c List.mem_cons_self

/-- Trimming leaves a text without blanks just if there is nothing but blanks around it. -/
theorem trim_eq_iff (hne : core ≠ []) (hcore : ∀ c ∈ core, isBlank c = false) :
    trim cs = core ↔
      ∃ front back, (∀ c ∈ front, isBlank c) ∧ (∀ c ∈ back, isBlank c) ∧ cs = front ++ core ++ back := by
  constructor
  · rintro rfl
    refine ⟨cs.takeWhile isBlank, (cs.dropWhile isBlank).rtakeWhile isBlank, fun c => List.mem_takeWhile_imp,
      fun c => List.mem_rtakeWhile_imp, ?_⟩
    have hend : trim cs ++ (cs.dropWhile isBlank).rtakeWhile isBlank = cs.dropWhile isBlank :=
      List.rdropWhile_append_rtakeWhile ..
    rw [List.append_assoc, hend, List.takeWhile_append_dropWhile]
  · rintro ⟨front, back, hfront, hback, rfl⟩
    have hreverse : (back.reverse ++ (core.reverse ++ [])).dropWhile isBlank = core.reverse ++ [] :=
      dropWhile_append_of_not (by simpa using hback) (by simpa using hne) (by simpa using hcore) []
    rw [List.append_nil, ← List.reverse_append] at hreverse
    rw [trim, List.append_assoc, dropWhile_append_of_not hfront hne hcore, dropEndWhile, hreverse, List.reverse_reverse]

theorem consWord_of_isBlank (hc : isBlank c) (rest : List Char) (words : List (List Char)) :
    consWord c rest words = words := if_pos hc

theorem consWord_nil (hc : isBlank c = false) (words : List (List Char)) : consWord c [] words = [c] :: words :=
  if_neg (Bool.eq_false_iff.mp hc)

theorem consWord_cons_nil {b : Char} (hc : isBlank c = false) (rest : List Char) :
    consWord c (b :: rest) [] = [[c]] := if_neg (Bool.eq_false_iff.mp hc)

theorem consWord_cons {b : Char} (hc : isBlank c = false) (rest word : List Char) (more : List (List Char)) :
    consWord c (b :: rest) (word :: more) = if isBlank b then [c] :: word :: more else (c :: word) :: more :=
  if_neg (Bool.eq_false_iff.mp hc)

/-- A text is cut at its blanks; the pieces that are not empty are its words. -/
theorem words_eq_filter (cs : List Char) : words cs = (cs.splitOnP isBlank).filter fun word => !word.isEmpty := by
  induction cs with
  | nil => rfl
  | cons c cs ih =>
      rw [words, ih, List.splitOnP_cons_eq_if_modifyHead]
      cases hc : isBlank c with
      | true => rw [consWord_of_isBlank hc]; rfl
      | false =>
          cases cs with
          | nil => exact consWord_nil hc []
          | cons b cs =>
              rw [List.splitOnP_cons_eq_if_modifyHead]
              cases hb : isBlank b with
              | true =>
                  cases h : (cs.splitOnP isBlank).filter fun word => !word.isEmpty with
                  | nil => simp [consWord_cons_nil hc, h]
                  | cons word more => simp [consWord_cons hc, hb, h]
              | false =>
                  obtain ⟨word, rest, hsplit⟩ := List.exists_cons_of_ne_nil (List.splitOnP_ne_nil isBlank cs)
                  simp [consWord_cons hc, hb, hsplit]

theorem words_append_cons (hc : isBlank c) (front back : List Char) :
    words (front ++ c :: back) = words front ++ words back := by
  simp only [words_eq_filter, List.splitOnP_append_cons front back hc, List.filter_append]

/-- Blanks in front of a text make no difference. -/
theorem words_append_left (h : ∀ c ∈ front, isBlank c) (cs : List Char) : words (front ++ cs) = words cs := by
  induction front with
  | nil => rfl
  | cons c front ih =>
      have hrest := ih fun d hd => h d (List.mem_cons_of_mem c hd)
      simpa [words, hrest] using words_append_cons (h c List.mem_cons_self) [] (front ++ cs)

/-- Blanks behind a text make no difference. -/
theorem words_append_right (cs : List Char) (h : ∀ c ∈ back, isBlank c) : words (cs ++ back) = words cs := by
  cases back with
  | nil => rw [List.append_nil]
  | cons c back =>
      have hnone : words back = [] := by
        simpa [words] using words_append_left (fun d hd => h d (List.mem_cons_of_mem c hd)) []
      rw [words_append_cons (h c List.mem_cons_self), hnone, List.append_nil]

theorem words_eq_singleton (hne : core ≠ []) (hcore : ∀ c ∈ core, isBlank c = false) : words core = [core] := by
  simp [words_eq_filter, List.splitOnP_eq_singleton hcore, hne]

theorem consWord_ne_nil (hc : isBlank c = false) (rest : List Char) (words : List (List Char)) :
    consWord c rest words ≠ [] := by
  rcases rest with _ | ⟨b, rest⟩
  · rw [consWord_nil hc]
    exact List.cons_ne_nil _ _
  · cases words with
    | nil =>
        rw [consWord_cons_nil hc]
        exact List.cons_ne_nil _ _
    | cons word more =>
        rw [consWord_cons hc]
        split <;> exact List.cons_ne_nil _ _

theorem words_eq_nil_iff : words cs = [] ↔ ∀ c ∈ cs, isBlank c := by
  induction cs with
  | nil => simp [words]
  | cons c cs ih =>
      rw [words, List.forall_mem_cons, ← ih]
      cases hc : isBlank c with
      | true => simp [consWord_of_isBlank hc]
      | false => simp [consWord_ne_nil hc]

/-! ## Lines -/

theorem lines_eq_splitOn (cs : List Char) : lines cs = cs.splitOn '\n' := by
  rw [lines]
  induction cs with
  | nil => rfl
  | cons c cs ih =>
      rw [split, ih, List.splitOn_cons_eq_if_modifyHead]
      obtain ⟨piece, more, hsplit⟩ := List.exists_cons_of_ne_nil (List.splitOn_ne_nil '\n' cs)
      by_cases hc : c = '\n' <;> simp [hc, hsplit]

/-! ## Tokens -/

theorem before_append (h : c ∉ front) (back : List Char) : before c (front ++ back) = front ++ before c back := by
  refine List.takeWhile_append_of_pos fun b hb => ?_
  simpa using fun hbc : b = c => h (hbc ▸ hb)

theorem eq_append_of_cutAt (h : cutAt token cs = some (front, back)) : cs = front ++ token ++ back := by
  induction cs generalizing front with
  | nil =>
      simp only [cutAt, Option.ite_none_right_eq_some, List.isEmpty_iff] at h
      simp_all
  | cons c cs ih =>
      rw [cutAt] at h
      split at h
      · rename_i hprefix
        obtain ⟨rfl, rfl⟩ := by simpa using h
        simpa using (List.prefix_iff_eq_append.mp (List.isPrefixOf_iff_prefix.mp hprefix)).symm
      · obtain ⟨⟨front', back'⟩, hrest, heq⟩ := Option.map_eq_some_iff.mp h
        obtain ⟨rfl, rfl⟩ := by simpa using heq
        simp [ih hrest]

theorem cutAt_eq_none (h : ¬token <:+: cs) : cutAt token cs = none := by
  cases hcut : cutAt token cs with
  | none => rfl
  | some cut => exact absurd ⟨cut.1, cut.2, (eq_append_of_cutAt hcut).symm⟩ h

/-- A token is found where it occurs, unless it starts with a character that occurs before. -/
theorem cutAt_append {t : Char} {ts : List Char} (h : t ∉ front) (back : List Char) :
    cutAt (t :: ts) (front ++ (t :: ts) ++ back) = some (front, back) := by
  induction front with
  | nil =>
      have hprefix : (t :: ts).isPrefixOf (t :: (ts ++ back)) := List.isPrefixOf_iff_prefix.mpr ⟨back, rfl⟩
      simp [cutAt, hprefix]
  | cons c front ih =>
      rw [List.mem_cons, not_or] at h
      have hprefix : (t :: ts).isPrefixOf (c :: (front ++ (t :: ts) ++ back)) = false := by
        simp [List.isPrefixOf_cons_cons, h.1]
      rw [List.cons_append, List.cons_append, cutAt, hprefix, ih h.2]
      rfl

end SinkFlow.Text
