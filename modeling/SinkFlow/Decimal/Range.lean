import SinkFlow.Text.Digits

/-! Decimals that are too large for a double. -/

namespace SinkFlow.Decimal

/-- The least number that is nearer to `2 ^ 1024` than to the largest double, or as near. -/
def infinity : Nat := (Nat.pow 2 54 - 1) * Nat.pow 2 970

/-- Whether `m * 10 ^ e` rounds to infinity. The number of its digits decides unless it is 309. -/
def isInfinite (m : Nat) (e : Int) : Bool :=
  let places := Int.ofNat (Nat.toDigits 10 m).length + e
  m != 0 && 308 < places &&
    (309 < places || infinity * Nat.pow 10 (-e).toNat ≤ m * Nat.pow 10 e.toNat)

/-- The nearest number with at most 53 binary digits; of two the one whose last digit is zero. -/
def roundBinary (n : Nat) : Nat :=
  let unit := Nat.pow 2 (n.log2 + 1 - 53)
  let q := n / unit
  let r := n % unit
  if unit < 2 * r ∨ (unit = 2 * r ∧ q % 2 = 1) then (q + 1) * unit else q * unit

/-- Takes digits into a number as long as it has 64 bits, and gives the digits that are left. -/
def absorb (n : Nat) : List Char → Nat × List Char
  | [] => (n, [])
  | c :: cs =>
    let next := n * 10 + (c.toNat - 48)
    if next < UInt64.size then absorb next cs else (n, c :: cs)

/-- Whether a decimal with the given digits before and after its point and the given exponent is too large, when its
leading digits, its power of ten and their product are each rounded on their own. -/
def overflows (whole fraction : List Char) (exponent : Int) : Bool :=
  let (n, beyond) := absorb 0 whole
  let (n, dropped) := absorb n fraction
  let e := exponent + Int.ofNat beyond.length - Int.ofNat (fraction.length - dropped.length)
  n != 0 && 0 ≤ e &&
    (308 < e || Nat.pow 2 1024 ≤ roundBinary (roundBinary n * roundBinary (Nat.pow 10 e.toNat)))

end SinkFlow.Decimal
