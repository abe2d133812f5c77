import MetricDepot.Ascii
/-!
# Decimals — whole multiples of powers of ten

A `Decimal` is a natural number of units, each a power of ten, positive or negative. It is
what a number text denotes exactly, before it is rounded, and what the shortest text of a
sample is chosen as, before it is laid out.
-/

namespace MetricDepot

/-- The number `units * 10 ^ exponent`. -/
structure Decimal where
  units : Nat
  exponent : Int
deriving DecidableEq, Repr

namespace Decimal

/-- The numerator of the fraction that a decimal is. -/
def numerator (d : Decimal) : Nat := d.units * Nat.pow 10 d.exponent.toNat

/-- The denominator of the fraction that a decimal is. -/
def denominator (d : Decimal) : Nat := Nat.pow 10 (-d.exponent).toNat

/-- The number of digits of the units. -/
def digitCount (d : Decimal) : Nat := (Ascii.natural d.units).length

/-- The exponent above the leading digit: the decimal is below `10 ^ top`. -/
def top (d : Decimal) : Int := d.digitCount + d.exponent

/-- Moves zeros at the end of the units into the exponent. The fuel bounds their number. -/
def trimOnto : (fuel : Nat) → Decimal → Decimal
  | 0, d => d
  | fuel + 1, d =>
      if d.units % 10 = 0 then trimOnto fuel ⟨d.units / 10, d.exponent + 1⟩ else d

/-- The same number with as few digits as possible. -/
def trim (d : Decimal) : Decimal := if d.units = 0 then ⟨0, 0⟩ else trimOnto d.digitCount d

/-- The greatest number of digits that are told apart when a decimal is rounded to a sample.
    Every sample, and every middle between two samples, has at most so many. -/
def digitLimit : Nat := 768

/-- The decimal with a single 1 in the place of all digits behind the first 768: there is
    more, whatever it is, so that no such decimal lies in the middle between two samples. -/
def clipped (d : Decimal) : Decimal :=
  let extra := d.digitCount - digitLimit
  if extra = 0 then d else ⟨d.units / Nat.pow 10 extra * 10 + 1, d.exponent + extra - 1⟩

/-- A decimal of few digits is not clipped. -/
theorem clipped_of_le {d : Decimal} (h : d.digitCount ≤ digitLimit) : d.clipped = d := by
  rw [clipped, Nat.sub_eq_zero_of_le h]
  rfl

end Decimal

end MetricDepot
