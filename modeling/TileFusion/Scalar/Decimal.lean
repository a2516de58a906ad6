import TileFusion.Scalar.Layout

/-!
# Decimal text of a number

A finite number is written with the fewest digits that read back as the same number. Those digits
are found on the coarsest power-of-ten grid that has a point among the reals rounding to the number;
of two such points the nearer is taken, and of two equally near ones the larger.

The text is positional while the decimal exponent lies from -4 to 15, and then always has a point
and a digit behind it; other numbers are written with an exponent.
-/

namespace TileFusion

/-- Digits and a power of ten: `digits` · 10^`exponent`. -/
structure Decimal where
  /-- The digits, as one number. -/
  digits : Nat
  /-- The power of ten of the last digit. -/
  exponent : Int
  deriving DecidableEq, Repr

namespace Ratio

/-- The exponent of the largest power of ten that is not above a positive fraction. -/
def log10 (r : Ratio) : Int :=
  let guess : Int := (Nat.toDigits 10 r.num).length - (Nat.toDigits 10 r.den).length
  let scaled := r.scale 10 (-guess)
  if scaled.den ≤ scaled.num then guess else guess - 1

/-- Whether one fraction is below another, or equal when `orEqual` is set. -/
def below (orEqual : Bool) (x y : Ratio) : Bool :=
  x.num * y.den < y.num * x.den || (orEqual && x.num * y.den == y.num * x.den)

end Ratio

/-- The reals that round to a number, with the number itself. The ends belong to it when the
pattern is even, since ties go there. -/
structure RoundingInterval where
  value : Ratio
  low : Ratio
  high : Ratio
  /-- Whether the ends round to the number too. -/
  closed : Bool

namespace RoundingInterval

/-- The interval of the finite positive `magnitude`. Below a power of two the grid is finer, so the
lower end is nearer there. -/
def of (l : Layout) (magnitude : Nat) : RoundingInterval :=
  let (m, q) := l.parts magnitude
  let quarter (n : Nat) : Ratio := (Ratio.mk n 4).scale 2 q
  let finer := m = Nat.pow 2 l.fractionBits ∧ l.leastExponent < q
  { value := quarter (4 * m)
    low := quarter (if finer then 4 * m - 1 else 4 * m - 2)
    high := quarter (4 * m + 2)
    closed := m % 2 == 0 }

/-- Whether a decimal lies in the interval. -/
def holds (i : RoundingInterval) (d : Decimal) : Bool :=
  let x := (Ratio.mk d.digits 1).scale 10 d.exponent
  i.low.below i.closed x && x.below i.closed i.high

/-- The point of the grid of 10^`k` that is in the interval and nearest to the number. -/
def pointOn? (i : RoundingInterval) (k : Int) : Option Decimal :=
  let scaled := i.value.scale 10 (-k)
  let down : Decimal := ⟨scaled.floor, k⟩
  let up : Decimal := ⟨scaled.floor + 1, k⟩
  let upIsNearer := 2 * (scaled.num % scaled.den) ≥ scaled.den
  match i.holds down, i.holds up with
  | true, true => some (if upIsNearer then up else down)
  | true, false => some down
  | false, true => some up
  | false, false => none

/-- The fewest digits in the interval: grids are tried from coarse to fine, and no number of either
layout needs more than seventeen digits. -/
def shortest (i : RoundingInterval) : Decimal :=
  let top := i.value.log10 + 1
  ((List.range 19).findSome? fun (n : Nat) => i.pointOn? (top - n)).getD ⟨i.value.floor, 0⟩

end RoundingInterval

namespace Decimal

/-- Digits in front of the point and behind it, without an exponent. -/
def positional (d : Decimal) : String :=
  let text := toString d.digits
  if 0 ≤ d.exponent then
    text ++ "".pushn '0' d.exponent.toNat ++ ".0"
  else
    let places := (-d.exponent).toNat
    let padded := "".pushn '0' (places + 1 - text.length) ++ text
    let whole := padded.length - places
    String.ofList (padded.toList.take whole) ++ "." ++ String.ofList (padded.toList.drop whole)

/-- One digit in front of the point, and the power of ten that it stands for. -/
def scientific (d : Decimal) : String :=
  let text := toString d.digits
  let power : Int := d.exponent + (text.length - 1 : Nat)
  let tail := String.ofList (text.toList.drop 1)
  String.ofList (text.toList.take 1) ++ (if tail == "" then "" else "." ++ tail) ++ s!"e{power}"

/-- Positional text while the power of ten of the first digit lies from -4 to 15. -/
def text (d : Decimal) : String :=
  let power : Int := d.exponent + ((toString d.digits).length - 1 : Nat)
  if -4 ≤ power ∧ power ≤ 15 then d.positional else d.scientific

end Decimal

namespace Scalar

variable {l : Layout}

/-- Text of a number. What is not a number has no sign. -/
def text (x : Scalar l) : String :=
  let sign := if x.negative then "-" else ""
  if x.isFinite then
    if x.magnitude = 0 then sign ++ "0.0"
    else sign ++ (RoundingInterval.of l x.magnitude).shortest.text
  else if x.magnitude = l.infinity then sign ++ "inf"
  else "NaN"

end Scalar

end TileFusion
