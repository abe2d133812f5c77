import Mathlib.Algebra.Order.Field.Power
import Mathlib.Data.Nat.Log
import Mathlib.Tactic.NormNum
import Mathlib.Tactic.Positivity
import Mathlib.Tactic.Ring
import MetricDepot.Decimal
/-!
# Exact decimals — the number that a decimal is

    A decimal is the rational number `value`.  As a fraction of whole numbers it is
    `numerator / denominator`; between which powers of ten it lies says `top`, which therefore
    depends on the value alone; and to trim a decimal keeps its value and leaves it no more
    digits than it had.
-/

namespace MetricDepot

/-- A power with a whole exponent is a fraction of powers with natural ones. -/
theorem zpow_eq_div {b : ℚ} (hb : b ≠ 0) (e : ℤ) : b ^ e = b ^ e.toNat / b ^ (-e).toNat := by
  rw [← zpow_natCast, ← zpow_natCast, ← zpow_sub₀ hb, Int.toNat_sub_toNat_neg]

namespace Ascii

/-- The digits of a number in front of what follows them. -/
theorem length_naturalOnto_eq {fuel n : Nat} (h : n < fuel) (rest : Bytes) :
    (naturalOnto fuel n rest).length = Nat.log 10 n + 1 + rest.length := by
  induction fuel generalizing n rest with
  | zero => exact absurd h (Nat.not_lt_zero n)
  | succ fuel ih =>
    rw [naturalOnto]
    split
    next hdigit => rw [List.length_cons, Nat.log_of_lt hdigit, Nat.zero_add, Nat.add_comm]
    next hdigits =>
      rw [ih (by omega), List.length_cons, Nat.log_of_one_lt_of_le (by decide) (Nat.not_lt.mp hdigits)]
      omega

/-- A number has as many digits as its logarithm says. -/
theorem length_natural (n : Nat) : (natural n).length = Nat.log 10 n + 1 :=
  length_naturalOnto_eq (Nat.lt_succ_self n) []

end Ascii

namespace Decimal

variable {d e : Decimal}

-- ── Value ───────────────────────────────────────────────────────────────────

/-- The number that a decimal is. -/
def value (d : Decimal) : ℚ := d.units * 10 ^ d.exponent

/-- A decimal is a fraction of whole numbers. -/
theorem value_eq_div (d : Decimal) : d.value = d.numerator / d.denominator := by
  rw [value, zpow_eq_div (by norm_num), numerator, denominator]
  push_cast [Nat.pow_eq]
  ring

/-- The fraction is one. -/
theorem denominator_pos (d : Decimal) : 0 < d.denominator := Nat.pow_pos (by decide)

/-- Its numerator is not zero unless the decimal is. -/
theorem numerator_pos (h : d.units ≠ 0) : 0 < d.numerator :=
  Nat.mul_pos (Nat.pos_of_ne_zero h) (Nat.pow_pos (by decide))

/-- A decimal is not negative, and without units only it is zero. -/
theorem value_pos (h : d.units ≠ 0) : 0 < d.value := by
  have hunits : (0 : ℚ) < d.units := Nat.cast_pos.mpr (Nat.pos_of_ne_zero h)
  rw [value]
  positivity

/-- A decimal above zero has units. -/
theorem units_ne_zero (h : 0 < d.value) : d.units ≠ 0 := by
  intro hzero
  rw [value, hzero, Nat.cast_zero, zero_mul] at h
  exact lt_irrefl 0 h

-- ── Top ─────────────────────────────────────────────────────────────────────

/-- The digits of a decimal are those of its units. -/
theorem digitCount_eq (d : Decimal) : d.digitCount = Nat.log 10 d.units + 1 :=
  Ascii.length_natural d.units

/-- A decimal lies below the power of ten of its top. -/
theorem value_lt_top (d : Decimal) : d.value < 10 ^ d.top := by
  have hunits : (d.units : ℚ) < 10 ^ d.digitCount := by
    rw [digitCount_eq]
    exact_mod_cast Nat.lt_pow_succ_log_self (by decide) d.units
  rw [value, top, zpow_add₀ (by norm_num), zpow_natCast]
  exact mul_lt_mul_of_pos_right hunits (by positivity)

/-- It does not lie below the power before that. -/
theorem top_le_value (h : d.units ≠ 0) : 10 ^ (d.top - 1) ≤ d.value := by
  have hunits : (10 : ℚ) ^ Nat.log 10 d.units ≤ d.units := by
    exact_mod_cast Nat.pow_log_le_self 10 h
  have htop : d.top - 1 = (Nat.log 10 d.units : ℤ) + d.exponent := by
    rw [top, digitCount_eq]
    omega
  rw [value, htop, zpow_add₀ (by norm_num), zpow_natCast]
  exact mul_le_mul_of_nonneg_right hunits (by positivity)

/-- A bound on the value is a bound on the top. -/
theorem top_le {k : ℤ} (hd : d.units ≠ 0) (h : d.value < 10 ^ k) : d.top ≤ k := by
  have hlt : (10 : ℚ) ^ (d.top - 1) < 10 ^ k := (top_le_value hd).trans_lt h
  have := (zpow_lt_zpow_iff_right₀ (by norm_num)).mp hlt
  omega

/-- A bound on the top from below. -/
theorem lt_top {k : ℤ} (h : 10 ^ k ≤ d.value) : k < d.top :=
  (zpow_lt_zpow_iff_right₀ (by norm_num)).mp (h.trans_lt d.value_lt_top)

/-- Decimals of one value have one top. -/
theorem top_congr (hd : d.units ≠ 0) (h : d.value = e.value) : d.top = e.top := by
  have he : e.units ≠ 0 := units_ne_zero (h ▸ value_pos hd)
  exact le_antisymm (top_le hd (h ▸ e.value_lt_top)) (top_le he (h ▸ d.value_lt_top))

-- ── Trimming ────────────────────────────────────────────────────────────────

/-- A zero at the end of the units can go into the exponent. -/
theorem value_shift (h : d.units % 10 = 0) : (⟨d.units / 10, d.exponent + 1⟩ : Decimal).value = d.value := by
  have hunits : (d.units : ℚ) = (d.units / 10 : ℕ) * 10 := by
    exact_mod_cast (Nat.div_mul_cancel (Nat.dvd_of_mod_eq_zero h)).symm
  rw [value, value, hunits, zpow_add_one₀ (by norm_num)]
  ring

/-- To take such zeros away keeps the value, however many go. -/
theorem value_trimOnto (fuel : Nat) (d : Decimal) : (trimOnto fuel d).value = d.value := by
  induction fuel generalizing d with
  | zero => rfl
  | succ fuel ih =>
    rw [trimOnto]
    split
    next h => rw [ih, value_shift h]
    next => rfl

/-- To trim a decimal keeps its value. -/
theorem value_trim (d : Decimal) : d.trim.value = d.value := by
  rw [trim]
  split
  next h => rw [value, value, h, Nat.cast_zero, zero_mul, zero_mul]
  next => exact value_trimOnto _ d

/-- It leaves no more digits than there were. -/
theorem digitCount_trimOnto_le (fuel : Nat) (d : Decimal) : (trimOnto fuel d).digitCount ≤ d.digitCount := by
  induction fuel generalizing d with
  | zero => exact Nat.le_refl _
  | succ fuel ih =>
    rw [trimOnto]
    split
    next h =>
      refine (ih _).trans ?_
      rw [digitCount_eq, digitCount_eq]
      exact Nat.succ_le_succ (Nat.log_mono_right (Nat.div_le_self _ _))
    next => exact Nat.le_refl _

/-- A bound on the units is a bound on their digits. -/
theorem digitCount_le {n : Nat} (hn : 0 < n) (h : d.units < 10 ^ n) : d.digitCount ≤ n := by
  rw [digitCount_eq]
  have := Nat.log_lt_of_lt_pow' hn.ne' h
  omega

/-- A decimal of at most `10 ^ n` units has at most `n` digits when it is trimmed. -/
theorem digitCount_trim_le {n : Nat} (hn : 0 < n) (h : d.units ≤ 10 ^ n) : d.trim.digitCount ≤ n := by
  rw [trim]
  split
  next => exact digitCount_le hn (Nat.pow_pos (by decide))
  next hne =>
    rcases Nat.lt_or_eq_of_le h with hlt | heq
    · exact (digitCount_trimOnto_le _ d).trans (digitCount_le hn hlt)
    · -- the power itself has one digit more, and loses it with its first zero
      obtain ⟨k, rfl⟩ : ∃ k, n = k + 1 := ⟨n - 1, by omega⟩
      have hdiv : d.units / 10 = 10 ^ k := by rw [heq, Nat.pow_succ, Nat.mul_div_cancel _ (by decide)]
      have hmod : d.units % 10 = 0 := by rw [heq, Nat.pow_succ, Nat.mul_mod_left]
      rw [digitCount_eq d, trimOnto, if_pos hmod]
      refine (digitCount_trimOnto_le _ _).trans (digitCount_le hn ?_)
      rw [hdiv]
      exact Nat.pow_lt_pow_right (by decide) (Nat.lt_succ_self k)

end Decimal

end MetricDepot
