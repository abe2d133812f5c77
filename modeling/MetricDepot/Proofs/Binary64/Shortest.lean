import Mathlib.Data.Nat.Cast.Order.Field
import MetricDepot.Binary64.Shortest
import MetricDepot.Proofs.Binary64.Nearest
/-!
# Shortest — seventeen digits name every sample

    On a grid of seventeen digits the two neighbours of a sample are so close that the nearer
    one denotes it.  So the search over the grids ends with a decimal, never with the exact
    value, and the decimal that it ends with denotes the sample: it was asked.

    Seventeen is just enough.  A step of the grid is at most `10 ^ -16` of the value, and half
    of it stays below the quarter of a unit that there is under a power of two.
-/

namespace MetricDepot.Binary64

variable {x : Binary64} {grid : Int}

-- ── The exact value ─────────────────────────────────────────────────────────

theorem value_pos (h : x.isZero = false) : 0 < x.value := by
  have hsignificand : (0 : ℚ) < x.significand := Nat.cast_pos.mpr (significand_pos h)
  rw [value]
  positivity

/-- The exact decimal of a sample has its value. -/
theorem value_exactDecimal (x : Binary64) : x.exactDecimal.value = x.value := by
  rw [exactDecimal, value]
  split
  next h =>
    rw [Decimal.value, Nat.shiftLeft_eq, zpow_zero, mul_one, Nat.cast_mul, Nat.cast_pow,
      ← zpow_natCast, Int.toNat_of_nonneg h]
    rfl
  next h =>
    have hexponent : x.exponent = -((-x.exponent).toNat : ℤ) := by omega
    generalize (-x.exponent).toNat = k at hexponent
    have hten : (10 : ℚ) ^ k = 5 ^ k * 2 ^ k := by rw [← mul_pow]; norm_num
    rw [Decimal.value, hexponent, zpow_neg, zpow_neg, zpow_natCast, zpow_natCast, hten, Nat.cast_mul,
      Nat.pow_eq, Nat.cast_pow]
    field_simp
    norm_num

-- ── Grids ───────────────────────────────────────────────────────────────────

/-- A sample in units of a grid. -/
def onScale (x : Binary64) (grid : Int) : Decimal :=
  ⟨x.exactDecimal.units, x.exactDecimal.exponent - grid⟩

/-- The units of the neighbour below a sample on a grid. -/
def below (x : Binary64) (grid : Int) : Nat := (x.onScale grid).numerator / (x.onScale grid).denominator

theorem value_onScale (x : Binary64) (grid : Int) : (x.onScale grid).value * 10 ^ grid = x.value := by
  rw [← value_exactDecimal, onScale, Decimal.value, Decimal.value, zpow_sub₀ (by norm_num)]
  field_simp

theorem below_le (x : Binary64) (grid : Int) : (x.below grid : ℚ) ≤ (x.onScale grid).value := by
  rw [Decimal.value_eq_div]
  exact Nat.cast_div_le

theorem lt_below (x : Binary64) (grid : Int) : (x.onScale grid).value < x.below grid + 1 := by
  have hpos : (0 : ℚ) < (x.onScale grid).denominator := Nat.cast_pos.mpr (Decimal.denominator_pos _)
  rw [Decimal.value_eq_div, div_lt_iff₀ hpos]
  exact_mod_cast Nat.lt_mul_of_div_lt (Nat.lt_succ_self _) (Decimal.denominator_pos _)

/-- What is found on a grid is one of the two neighbours there, and denotes the sample. -/
theorem onGrid?_eq_some {d : Decimal} (h : x.onGrid? x.exactDecimal grid = some d) :
    x.denotes d = true ∧ d.units ≤ x.below grid + 1 := by
  rw [onGrid?] at h
  dsimp only at h
  split at h
  · cases h
  next hdenotes hother =>
    obtain rfl := Option.some.inj h
    exact ⟨hdenotes, Nat.le_succ _⟩
  next hother hdenotes =>
    obtain rfl := Option.some.inj h
    exact ⟨hdenotes, Nat.le_refl _⟩
  next hbelow habove =>
    split at h
    · obtain rfl := Option.some.inj h
      exact ⟨hbelow, Nat.le_succ _⟩
    · obtain rfl := Option.some.inj h
      exact ⟨habove, Nat.le_refl _⟩

/-- Something is found on a grid if one of the two neighbours there denotes the sample. -/
theorem isSome_onGrid? {n : Nat} (hn : n = x.below grid ∨ n = x.below grid + 1)
    (h : x.denotes ⟨n, grid⟩ = true) : (x.onGrid? x.exactDecimal grid).isSome = true := by
  rw [onGrid?]
  dsimp only
  split
  next hbelow habove =>
    rcases hn with rfl | rfl
    · exact absurd (hbelow.symm.trans h) Bool.false_ne_true
    · exact absurd (habove.symm.trans h) Bool.false_ne_true
  · rfl
  · rfl
  · split
    · rfl
    · rfl

-- ── Seventeen digits ────────────────────────────────────────────────────────

theorem near_of_grid {n : Nat} (hgrid : 10 ^ 16 ≤ (x.onScale grid).value)
    (hn : |(n : ℚ) - (x.onScale grid).value| ≤ 1 / 2) : Near x (⟨n, grid⟩ : Decimal).value := by
  have hstep : (0 : ℚ) < 10 ^ grid := by positivity
  have hunit : (0 : ℚ) < 2 ^ x.exponent := by positivity
  have hvalue : (x.onScale grid).value * 10 ^ grid = x.significand * 2 ^ x.exponent :=
    value_onScale x grid
  obtain ⟨hlow, hhigh⟩ := abs_le.mp hn
  have hclose : (n : ℚ) * 10 ^ grid ≤ x.significand * 2 ^ x.exponent + 10 ^ grid / 2 := by
    rw [← hvalue]
    nlinarith
  have hfar : x.significand * 2 ^ x.exponent - 10 ^ grid / 2 ≤ (n : ℚ) * 10 ^ grid := by
    rw [← hvalue]
    nlinarith
  -- a step of the grid is a small part of the value
  have hsmall : 10 ^ 16 * (10 : ℚ) ^ grid ≤ x.significand * 2 ^ x.exponent := by
    rw [← hvalue]
    exact mul_le_mul_of_nonneg_right hgrid hstep.le
  have hsignificand : (x.significand : ℚ) * 2 ^ x.exponent < 2 ^ 53 * 2 ^ x.exponent := by
    refine mul_lt_mul_of_pos_right ?_ hunit
    exact_mod_cast x.significand_lt
  rw [show (2 : ℚ) ^ 53 = 9007199254740992 by norm_num] at hsignificand
  refine ⟨?_, ?_, ?_⟩
  · rw [Decimal.value, add_mul]
    linarith
  · rw [Decimal.value, sub_mul]
    linarith
  · intro hedge
    rw [Decimal.value, sub_mul]
    rw [hedge] at hsmall hfar ⊢
    push_cast at hsmall hfar ⊢
    linarith

/-- On a grid of seventeen digits the nearer neighbour denotes the sample. -/
theorem isSome_onGrid?_of_le (hfinite : x.isFinite = true) (hzero : x.isZero = false)
    (hgrid : 10 ^ 16 ≤ (x.onScale grid).value) : (x.onGrid? x.exactDecimal grid).isSome = true := by
  have hbelow := x.below_le grid
  have habove := x.lt_below grid
  have hdenotes : ∀ n : Nat, |(n : ℚ) - (x.onScale grid).value| ≤ 1 / 2 → x.denotes ⟨n, grid⟩ = true := by
    intro n hn
    rw [denotes, nearest?_of_near hfinite hzero (near_of_grid hgrid hn), beq_self_eq_true]
  rcases le_total ((x.onScale grid).value - x.below grid) (1 / 2) with hnear | hnear
  · refine isSome_onGrid? (Or.inl rfl) (hdenotes _ ?_)
    exact abs_le.mpr ⟨by linarith, by linarith⟩
  · refine isSome_onGrid? (Or.inr rfl) (hdenotes _ ?_)
    push_cast
    exact abs_le.mpr ⟨by linarith, by linarith⟩

/-- The value of a sample has as many digits on a grid as the grid lies below its top. -/
theorem onScale_bounds (hzero : x.isZero = false) (n : Nat) :
    10 ^ n ≤ (x.onScale (x.exactDecimal.top - (n + 1 : Nat))).value ∧
      (x.onScale (x.exactDecimal.top - (n + 1 : Nat))).value < 10 ^ (n + 1) := by
  have hvalue := value_onScale x (x.exactDecimal.top - (n + 1 : Nat))
  have hstep : (0 : ℚ) < 10 ^ (x.exactDecimal.top - (n + 1 : Nat)) := by positivity
  have hpos : 0 < x.exactDecimal.value := value_exactDecimal x ▸ value_pos hzero
  have hlow := Decimal.top_le_value (Decimal.units_ne_zero hpos)
  have hhigh := x.exactDecimal.value_lt_top
  rw [value_exactDecimal] at hlow hhigh
  constructor
  · refine le_of_mul_le_mul_right ?_ hstep
    rw [hvalue, ← zpow_natCast, ← zpow_add₀ (by norm_num)]
    refine le_of_eq_of_le ?_ hlow
    congr 1
    push_cast
    ring
  · refine lt_of_mul_lt_mul_right ?_ hstep.le
    rw [hvalue, ← zpow_natCast, ← zpow_add₀ (by norm_num)]
    refine lt_of_lt_of_eq hhigh ?_
    congr 1
    push_cast
    ring

/-- **The shortest decimal denotes its sample**, and has at most seventeen digits. -/
theorem shortest_spec (hfinite : x.isFinite = true) (hzero : x.isZero = false) :
    nearest? false x.shortest = some (ofMagnitude false x.magnitude) ∧ x.shortest.digitCount ≤ 17 := by
  have hlast : (x.onGrid? x.exactDecimal (x.exactDecimal.top - (16 + 1 : Nat))).isSome = true :=
    isSome_onGrid?_of_le hfinite hzero (onScale_bounds hzero 16).1
  rw [shortest]
  split
  next d hfound =>
    obtain ⟨n, hn, hgrid⟩ := List.exists_of_findSome?_eq_some hfound
    obtain ⟨hdenotes, hunits⟩ := onGrid?_eq_some hgrid
    refine ⟨?_, ?_⟩
    · rw [nearest?_congr false d.value_trim]
      exact eq_of_beq hdenotes
    · have hbelow : x.below (x.exactDecimal.top - (n + 1 : Nat)) < 10 ^ (n + 1) := by
        have := (below_le x _).trans_lt (onScale_bounds hzero n).2
        exact_mod_cast this
      exact (Decimal.digitCount_trim_le (Nat.succ_pos n) (by omega)).trans (List.mem_range.mp hn)
  next hnothing =>
    have hnone := List.findSome?_eq_none_iff.mp hnothing 16 (List.mem_range.mpr (by decide))
    rw [hnone] at hlast
    cases hlast

end MetricDepot.Binary64
