/-! Digits: natural numbers written in a base up to sixteen. -/

namespace SinkFlow.Text

/-- The value of a digit, in either case, if the base has it. -/
def digit? (base : Nat) (c : Char) : Option Nat :=
  let n :=
    if '0' ≤ c ∧ c ≤ '9' then some (c.toNat - 48)
    else if 'a' ≤ c ∧ c ≤ 'f' then some (c.toNat - 87)
    else if 'A' ≤ c ∧ c ≤ 'F' then some (c.toNat - 55)
    else none
  n.filter (· < base)

/-- Goes on reading a number of which `n` has been read. -/
def numberFrom (base n : Nat) : List Char → Option Nat
  | [] => some n
  | c :: cs => (digit? base c).bind fun d => numberFrom base (n * base + d) cs

/-- The number that digits stand for, highest place first; there has to be at least one. -/
def number? (base : Nat) : List Char → Option Nat
  | [] => none
  | c :: cs => numberFrom base 0 (c :: cs)

end SinkFlow.Text
