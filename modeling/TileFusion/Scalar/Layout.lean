/-!
# Binary floating-point numbers

A layout fixes how many bits a binary floating-point number has for its exponent and its fraction.
A `Scalar` of a layout is a sign and the remaining bits read as one number, its magnitude; in that
reading the magnitudes are ordered like the values, infinity comes after all finite ones and the
patterns behind it are not numbers.

`Layout.round` takes a fraction of two natural numbers to the magnitude of the nearest value, with
ties to the even pattern. All arithmetic is exact.
-/

namespace TileFusion

/-- Field widths of a binary floating-point number. -/
structure Layout where
  exponentBits : Nat
  fractionBits : Nat
  deriving DecidableEq, Repr

/-- The 32-bit layout. -/
def binary32 : Layout := ⟨8, 23⟩

/-- The 64-bit layout. -/
def binary64 : Layout := ⟨11, 52⟩

namespace Layout

/-- Magnitude of infinity: the exponent field is full. -/
def infinity (l : Layout) : Nat :=
  (Nat.pow 2 l.exponentBits - 1) * Nat.pow 2 l.fractionBits

/-- Magnitude of the chosen pattern that is not a number. -/
def notANumber (l : Layout) : Nat :=
  l.infinity + Nat.pow 2 (l.fractionBits - 1)

/-- Power of two that the last fraction bit of the smallest numbers stands for. -/
def leastExponent (l : Layout) : Int :=
  2 - (Nat.pow 2 (l.exponentBits - 1) : Int) - l.fractionBits

/-- Number of the finite `magnitude`, as `m` and `q` in m · 2^q. -/
def parts (l : Layout) (magnitude : Nat) : Nat × Int :=
  let unit := Nat.pow 2 l.fractionBits
  let field := magnitude / unit
  if field = 0 then (magnitude, l.leastExponent)
  else (magnitude % unit + unit, l.leastExponent + (field - 1 : Nat))

end Layout

/-- A fraction with two natural numbers. The denominator is meant to be positive. -/
structure Ratio where
  num : Nat
  den : Nat
  deriving Repr

namespace Ratio

/-- The fraction times `base ^ k`, for any sign of `k`. -/
def scale (r : Ratio) (base : Nat) (k : Int) : Ratio :=
  ⟨r.num * Nat.pow base k.toNat, r.den * Nat.pow base (-k).toNat⟩

/-- The largest whole number that is not above. -/
def floor (r : Ratio) : Nat :=
  r.num / r.den

/-- The nearest whole number; of two, the even one. -/
def roundEven (r : Ratio) : Nat :=
  let down := r.num / r.den
  let rest := r.num % r.den
  if 2 * rest < r.den then down
  else if r.den < 2 * rest then down + 1
  else down + down % 2

/-- The exponent of the largest power of two that is not above a positive fraction. -/
def log2 (r : Ratio) : Int :=
  let guess : Int := r.num.log2 - r.den.log2
  let scaled := r.scale 2 (-guess)
  if scaled.den ≤ scaled.num then guess else guess - 1

end Ratio

namespace Layout

/-- Magnitude of the value nearest to a fraction; of two, the even pattern. What lies beyond the
largest finite value by half a step or more is infinite. -/
def round (l : Layout) (r : Ratio) : Nat :=
  if r.num = 0 then 0
  else
    let q := max (r.log2 - l.fractionBits) l.leastExponent
    let m := (r.scale 2 (-q)).roundEven
    min ((q - l.leastExponent).toNat * Nat.pow 2 l.fractionBits + m) l.infinity

end Layout

/-- A number of a layout. -/
structure Scalar (l : Layout) where
  /-- The sign bit. -/
  negative : Bool
  /-- The other bits, as one number. -/
  magnitude : Nat
  deriving DecidableEq, Repr

namespace Scalar

variable {l : Layout}

/-- Neither infinite nor a pattern that is not a number. -/
def isFinite (x : Scalar l) : Bool :=
  x.magnitude < l.infinity

/-- The number of a bit pattern. -/
def ofBits (l : Layout) (bits : Nat) : Scalar l :=
  let signBit := Nat.pow 2 (l.exponentBits + l.fractionBits)
  ⟨bits / signBit % 2 == 1, bits % signBit⟩

/-- The number nearest to a whole number. -/
def ofInt (l : Layout) (n : Int) : Scalar l :=
  ⟨n < 0, l.round ⟨n.natAbs, 1⟩⟩

/-- The number nearest to `digits` · 10^`exponent`. A decimal exponent beyond the range of the
layout settles the answer without the power of ten being computed. -/
def ofDecimal (l : Layout) (negative : Bool) (digits : Nat) (exponent : Int) : Scalar l :=
  let reach : Int := Nat.pow 2 l.exponentBits
  let top : Int := (Nat.toDigits 10 digits).length + exponent
  if digits = 0 ∨ top < -reach then ⟨negative, 0⟩
  else if reach < top then ⟨negative, l.infinity⟩
  else ⟨negative, l.round ((Ratio.mk digits 1).scale 10 exponent)⟩

/-- The nearest number of another layout. Infinity and what is not a number stay so. -/
def convert (target : Layout) (x : Scalar l) : Scalar target :=
  if x.isFinite then
    let (m, q) := l.parts x.magnitude
    ⟨x.negative, target.round ((Ratio.mk m 1).scale 2 q)⟩
  else if x.magnitude = l.infinity then ⟨x.negative, target.infinity⟩
  else ⟨x.negative, target.notANumber⟩

end Scalar

end TileFusion
