/-!
# Binary64 — sample values as 64-bit patterns

A sample value is a 64-bit floating-point number, held as its bit pattern: sign, eleven
bits of exponent, fifty-two bits of fraction. Nothing is computed with samples; they are
read, written and compared, and all three are exact integer questions on the pattern.

Two comparisons matter. `equal` is the numeric one, under which a NaN differs from itself
and the two zeros agree. `canonical` gives all NaNs one pattern and leaves every other
pattern alone; it is what survives a text, which knows only one NaN.
-/

namespace MetricDepot

/-- A 64-bit floating-point number as its bit pattern. -/
structure Binary64 where
  bits : UInt64
deriving DecidableEq, Repr

namespace Binary64

-- ── The parts of a pattern ──────────────────────────────────────────────────

-- The sign bit weighs 0x8000000000000000, the lowest bit of the exponent 0x10000000000000.

/-- The pattern without its sign bit. Magnitudes order as the numbers they stand for. -/
def magnitude (x : Binary64) : Nat := x.bits.toNat % 0x8000000000000000

/-- Whether the sign bit is set. -/
def isNegative (x : Binary64) : Bool := 0x8000000000000000 ≤ x.bits.toNat

/-- The magnitude of the infinities; greater magnitudes are NaNs. -/
def infinityMagnitude : Nat := 2047 * 0x10000000000000

/-- The number of a sign and a magnitude. -/
def ofMagnitude (negative : Bool) (magnitude : Nat) : Binary64 :=
  ⟨UInt64.ofNat (if negative then 0x8000000000000000 + magnitude else magnitude)⟩

def isNaN (x : Binary64) : Bool := infinityMagnitude < x.magnitude

def isFinite (x : Binary64) : Bool := x.magnitude < infinityMagnitude

def isZero (x : Binary64) : Bool := x.magnitude == 0

/-- The one NaN that texts name. -/
def nan : Binary64 := ⟨0x7FF8000000000000⟩

/-- An infinity of either sign. -/
def infinity (negative : Bool) : Binary64 := ofMagnitude negative infinityMagnitude

/-- The pattern with every NaN replaced by `nan`. -/
def canonical (x : Binary64) : Binary64 := if x.isNaN then nan else x

/-- Numeric equality: a NaN equals nothing, and the two zeros are equal. -/
def equal (x y : Binary64) : Bool :=
  !x.isNaN && !y.isNaN && (x.bits == y.bits || (x.isZero && y.isZero))

/-- The significand of a finite number, as an integer. -/
def significand (x : Binary64) : Nat :=
  if x.magnitude < 0x10000000000000 then x.magnitude
  else 0x10000000000000 + x.magnitude % 0x10000000000000

/-- The exponent of two that belongs to `significand`. -/
def exponent (x : Binary64) : Int :=
  if x.magnitude < 0x10000000000000 then -1074
  else (x.magnitude / 0x10000000000000 : Nat) - 1075

-- ── Facts on the parts ──────────────────────────────────────────────────────

/-- A pattern is its sign and its magnitude. -/
theorem ofMagnitude_parts (x : Binary64) : ofMagnitude x.isNegative x.magnitude = x := by
  obtain ⟨bits⟩ := x
  have hbits : bits.toNat < UInt64.size := bits.toNat_lt_size
  have hnat : (if 0x8000000000000000 ≤ bits.toNat
      then 0x8000000000000000 + bits.toNat % 0x8000000000000000
      else bits.toNat % 0x8000000000000000) = bits.toNat := by
    rw [UInt64.size] at hbits
    split <;> omega
  simp only [ofMagnitude, isNegative, magnitude, decide_eq_true_eq, hnat, UInt64.ofNat_toNat]

@[simp] theorem canonical_canonical (x : Binary64) : x.canonical.canonical = x.canonical := by
  by_cases h : x.isNaN = true
  · have : x.canonical = nan := if_pos h
    rw [this]
    rfl
  · have : x.canonical = x := if_neg h
    rw [this, this]

theorem canonical_of_finite {x : Binary64} (h : x.isFinite = true) : x.canonical = x := by
  have : ¬ x.isNaN = true := by
    simp only [isFinite, isNaN, decide_eq_true_eq] at h ⊢
    omega
  rw [canonical, if_neg this]

end Binary64

end MetricDepot
