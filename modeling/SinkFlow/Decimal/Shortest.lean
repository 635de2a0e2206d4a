import SinkFlow.Text.Cut

/-!
Shortest decimals: the fewest significant digits that read back as a given binary fraction,
written positionally.
-/

namespace SinkFlow.Decimal

/-- A positive fraction of two natural numbers. -/
structure Ratio where
  num : Nat
  den : Nat

namespace Ratio

/-- The fraction `m * 2 ^ (up - down)`. -/
def ofBinary (m up down : Nat) : Ratio := ⟨m * Nat.pow 2 up, Nat.pow 2 down⟩

/-- The fraction `d * 10 ^ (up - down)`. -/
def ofDecimal (d up down : Nat) : Ratio := ⟨d * Nat.pow 10 up, Nat.pow 10 down⟩

/-- Whether the first fraction is below the second one. -/
def lt (a b : Ratio) : Bool := a.num * b.den < b.num * a.den

/-- The distance of two fractions. -/
def dist (a b : Ratio) : Ratio :=
  ⟨(a.num * b.den - b.num * a.den) + (b.num * a.den - a.num * b.den), a.den * b.den⟩

end Ratio

/-- The fractions that read back as one number: those between two bounds. -/
structure Interval where
  low : Ratio
  high : Ratio
  closed : Bool

/-- Whether a fraction lies in the interval. -/
def Interval.contains (i : Interval) (r : Ratio) : Bool :=
  if i.closed then !r.lt i.low && !i.high.lt r else i.low.lt r && r.lt i.high

/-- A decimal `digits * 10 ^ (up - down)`. -/
structure Digits where
  digits : Nat
  up : Nat
  down : Nat
  deriving DecidableEq

/-- The value of a decimal. -/
def Digits.toRatio (d : Digits) : Ratio := Ratio.ofDecimal d.digits d.up d.down

/-- Counts how often a fraction below one must be multiplied by ten to reach one. -/
def leadingZeros (r : Ratio) : Nat → Nat
  | 0 => 0
  | fuel + 1 => if r.num < r.den then leadingZeros ⟨r.num * 10, r.den⟩ fuel + 1 else 0

/-- The grid of decimals with `n` significant digits around a fraction: the exponents of its unit. -/
def gridUnit (r : Ratio) (n : Nat) : Nat × Nat :=
  if r.num < r.den then
    (0, leadingZeros r 400 + n - 1)
  else
    let whole := (Nat.toDigits 10 (r.num / r.den)).length
    (whole - n, n - whole)

/-- The neighbour of a fraction on the grid of `n` digits that lies in the interval, the nearer one
if both do and the upper one if both are as near. -/
def nearest? (i : Interval) (r : Ratio) (n : Nat) : Option Digits :=
  let (up, down) := gridUnit r n
  let floor := r.num * Nat.pow 10 down / (r.den * Nat.pow 10 up)
  let lower : Digits := ⟨floor, up, down⟩
  let upper : Digits := ⟨floor + 1, up, down⟩
  match i.contains lower.toRatio, i.contains upper.toRatio with
  | true, true =>
    if (r.dist lower.toRatio).lt (r.dist upper.toRatio) then some lower else some upper
  | true, false => some lower
  | false, true => some upper
  | false, false => none

/-- The first grid, from one digit on, that has a neighbour in the interval. -/
def shortestFrom (i : Interval) (r : Ratio) (n : Nat) : Nat → Digits
  | 0 => ⟨r.num / r.den, 0, 0⟩
  | fuel + 1 =>
    match nearest? i r n with
    | some d => d
    | none => shortestFrom i r (n + 1) fuel

/-- A decimal in positional notation, without a point if it is whole. -/
def Digits.positional (d : Digits) : List Char :=
  let text := Nat.toDigits 10 d.digits ++ List.replicate d.up '0'
  if d.down = 0 then text
  else
    let padded := List.replicate (d.down + 1 - text.length) '0' ++ text
    let whole := padded.take (padded.length - d.down)
    match Text.dropEndWhile (· = '0') (padded.drop (padded.length - d.down)) with
    | [] => whole
    | fraction => whole ++ '.' :: fraction

/-- The positional text of a positive number `m * 2 ^ (up - down)`; `tight` says that the next
number below is only half as far away as the next one above. -/
def positive (m up down : Nat) (tight : Bool) : List Char :=
  let r := Ratio.ofBinary m up down
  let low := if tight then Ratio.ofBinary (4 * m - 1) up (down + 2) else Ratio.ofBinary (2 * m - 1) up (down + 1)
  let high := Ratio.ofBinary (2 * m + 1) up (down + 1)
  (shortestFrom ⟨low, high, m % 2 == 0⟩ r 1 17).positional

/-- The text of a 64-bit binary floating-point number, given by its bits: shortest digits, never
with an exponent, and no point in whole numbers. -/
def ofBits (bits : UInt64) : String :=
  let n := bits.toNat
  let negative := n / Nat.pow 2 63 == 1
  let exponent := n / Nat.pow 2 52 % Nat.pow 2 11
  let fraction := n % Nat.pow 2 52
  let sign := if negative then "-" else ""
  if exponent = 2047 then
    if fraction = 0 then sign ++ "inf" else "NaN"
  else if exponent = 0 then
    if fraction = 0 then sign ++ "0" else sign ++ String.ofList (positive fraction 0 1074 false)
  else
    let m := Nat.pow 2 52 + fraction
    let tight := fraction == 0 && exponent > 1
    sign ++ String.ofList (positive m (exponent - 1075) (1075 - exponent) tight)

end SinkFlow.Decimal
