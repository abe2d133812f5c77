import MetricDepot.Binary64
import MetricDepot.Decimal
/-!
# Nearest — the sample that a decimal denotes

A decimal denotes the nearest 64-bit number, and of two equally near ones the one with an
even significand. The rounding is done on the exact fraction: find the power of two that
leaves a significand of 53 bits (or the smallest power, below the normal numbers), divide,
and round the quotient half to even. A quotient that rounds up to the next power of two
carries into the exponent, because magnitudes are numbered without a gap.

A decimal too great for a finite number denotes none: the formats refuse such a number.
-/

namespace MetricDepot.Binary64

/-- The quotient rounded to the nearest whole number, a half to the even one. -/
def roundHalfEven (num den : Nat) : Nat :=
  let quotient := num / den
  let twice := 2 * (num % den)
  if twice < den ∨ (twice = den ∧ quotient % 2 = 0) then quotient else quotient + 1

/-- The fraction `num / den` scaled by a power of two, as numerator and denominator. -/
def scaled (num den : Nat) (power : Int) : Nat × Nat :=
  (num <<< power.toNat, den <<< (-power).toNat)

/-- The exponent of the highest power of two that is at most the positive fraction `num / den`. -/
def floorLog2 (num den : Nat) : Int :=
  let guess : Int := num.log2 - den.log2
  let (n, d) := scaled num den (-guess)
  if d ≤ n then guess else guess - 1

/-- The magnitude nearest to the positive fraction `num / den`; it may lie beyond the finite ones. -/
def nearestMagnitude (num den : Nat) : Nat :=
  let power : Int := max (floorLog2 num den - 52) (-1074)
  let (n, d) := scaled num den (-power)
  (power + 1074).toNat * 0x10000000000000 + roundHalfEven n d

/-- The number nearest to a decimal of the given sign, or none where that is infinite.
    Decimals far outside the range of the finite numbers are settled by their size alone,
    so that no great power of ten is ever computed. -/
def nearest? (negative : Bool) (d : Decimal) : Option Binary64 :=
  if d.units = 0 then some (ofMagnitude negative 0)
  else if 310 < d.top then none
  else if d.top < -330 then some (ofMagnitude negative 0)
  else
    let m := nearestMagnitude d.numerator d.denominator
    if m < infinityMagnitude then some (ofMagnitude negative m) else none

end MetricDepot.Binary64
