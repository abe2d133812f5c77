import MetricDepot.Binary64.Nearest
/-!
# Shortest — the decimal that names a sample

A finite sample is written as the decimal with the fewest digits that denotes it again,
and of two such decimals the nearer one, a tie going to the even digit. Decimals of one
number of digits form a grid, and if any point of a grid denotes the sample, one of the
sample's two neighbours on that grid does; so the search asks only those two, grid after
grid. Should no grid of seventeen digits serve, the exact value is written.
-/

namespace MetricDepot.Binary64

/-- The exact value of a finite number as a decimal. -/
def exactDecimal (x : Binary64) : Decimal :=
  if 0 ≤ x.exponent then ⟨x.significand <<< x.exponent.toNat, 0⟩
  else ⟨x.significand * Nat.pow 5 (-x.exponent).toNat, x.exponent⟩

/-- Whether a decimal denotes the magnitude of `x`. -/
def denotes (x : Binary64) (d : Decimal) : Bool :=
  nearest? false d == some (ofMagnitude false x.magnitude)

/-- The decimal on the grid of `10 ^ grid` that names `x`, if one of the two neighbours of
    `x` there does. -/
def onGrid? (x : Binary64) (value : Decimal) (grid : Int) : Option Decimal :=
  let shift : Decimal := ⟨value.units, value.exponent - grid⟩
  let num := shift.numerator
  let den := shift.denominator
  let below : Decimal := ⟨num / den, grid⟩
  let above : Decimal := ⟨num / den + 1, grid⟩
  match denotes x below, denotes x above with
  | false, false => none
  | true, false => some below
  | false, true => some above
  | true, true =>
      if 2 * (num % den) < den ∨ (2 * (num % den) = den ∧ below.units % 2 = 0) then some below
      else some above

/-- The decimal with the fewest digits that denotes the magnitude of a finite, non-zero number. -/
def shortest (x : Binary64) : Decimal :=
  let value := x.exactDecimal
  match (List.range 17).findSome? (fun (n : Nat) => x.onGrid? value (value.top - (n + 1 : Nat))) with
  | some d => d.trim
  | none => value.trim

end MetricDepot.Binary64
