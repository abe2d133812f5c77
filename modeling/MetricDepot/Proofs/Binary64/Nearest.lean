import Mathlib.Data.Int.Log
import Mathlib.Data.Rat.Floor
import Mathlib.Tactic.FieldSimp
import Mathlib.Tactic.Linarith
import MetricDepot.Binary64.Nearest
import MetricDepot.Proofs.Decimal
/-!
# Nearest — rounding depends on the value, and knows its neighbourhood

    Nothing of a decimal matters to the sample that it denotes but its value: the power of
    two is the logarithm of the value, and the quotient is rounded alike however the fraction
    is scaled.

    `Near x r` says that `r` lies closer to `x` than to any other sample.  The room below is
    half of the room above where the significand is a power of two, since the samples below
    lie twice as dense.  **What is near a sample is rounded to it**: `nearest?_of_near`.
-/

namespace MetricDepot.Binary64

variable {num den num' den' : Nat}

-- ── Scaling ─────────────────────────────────────────────────────────────────

/-- A fraction is scaled by a power of two on one of its sides. -/
theorem scaled_eq (num den : Nat) (power : Int) :
    scaled num den power = (num * 2 ^ power.toNat, den * 2 ^ (-power).toNat) := by
  rw [scaled, Nat.shiftLeft_eq, Nat.shiftLeft_eq]

/-- The denominator stays above zero. -/
theorem scaled_pos (hden : 0 < den) (power : Int) : 0 < (scaled num den power).2 := by
  rw [scaled_eq]
  exact Nat.mul_pos hden (Nat.two_pow_pos _)

/-- The number is multiplied by the power. -/
theorem scaled_ratio (num den : Nat) (power : Int) :
    ((scaled num den power).1 : ℚ) / (scaled num den power).2 = num / den * 2 ^ power := by
  rw [scaled_eq, zpow_eq_div two_ne_zero, div_mul_div_comm]
  push_cast
  rfl

-- ── The power of two ────────────────────────────────────────────────────────

/-- The logarithm is told by the two powers around a number. -/
theorem log_eq {r : ℚ} {k : ℤ} (hlow : 2 ^ k ≤ r) (hhigh : r < 2 ^ (k + 1)) : Int.log 2 r = k := by
  have hr : 0 < r := lt_of_lt_of_le (by positivity) hlow
  have hle : k ≤ Int.log 2 r := (Int.zpow_le_iff_le_log (by decide) hr).mp (by exact_mod_cast hlow)
  have hlt : Int.log 2 r < k + 1 :=
    (Int.lt_zpow_iff_log_lt (by decide) hr).mp (by exact_mod_cast hhigh)
  omega

/-- The lengths of the sides tell the size of a fraction up to a factor of four. -/
theorem ratio_bounds (hnum : 0 < num) (hden : 0 < den) :
    2 ^ ((num.log2 : ℤ) - den.log2 - 1) ≤ (num : ℚ) / den ∧
      (num : ℚ) / den < 2 ^ ((num.log2 : ℤ) - den.log2 + 1) := by
  have hnumLow : (2 : ℚ) ^ num.log2 ≤ num := by exact_mod_cast Nat.log2_self_le hnum.ne'
  have hnumHigh : (num : ℚ) < 2 ^ (num.log2 + 1) := by exact_mod_cast Nat.lt_log2_self
  have hdenLow : (2 : ℚ) ^ den.log2 ≤ den := by exact_mod_cast Nat.log2_self_le hden.ne'
  have hdenHigh : (den : ℚ) < 2 ^ (den.log2 + 1) := by exact_mod_cast Nat.lt_log2_self
  have hpos : (0 : ℚ) < den := Nat.cast_pos.mpr hden
  rw [le_div_iff₀ hpos, div_lt_iff₀ hpos]
  constructor
  · calc (2 : ℚ) ^ ((num.log2 : ℤ) - den.log2 - 1) * den
        ≤ 2 ^ ((num.log2 : ℤ) - den.log2 - 1) * 2 ^ (den.log2 + 1) := by gcongr
      _ = 2 ^ num.log2 := by
        rw [← zpow_natCast, ← zpow_natCast, ← zpow_add₀ two_ne_zero]
        congr 1
        push_cast
        ring
      _ ≤ num := hnumLow
  · calc (num : ℚ) < 2 ^ (num.log2 + 1) := hnumHigh
      _ = 2 ^ ((num.log2 : ℤ) - den.log2 + 1) * 2 ^ den.log2 := by
        rw [← zpow_natCast, ← zpow_natCast, ← zpow_add₀ two_ne_zero]
        congr 1
        push_cast
        ring
      _ ≤ 2 ^ ((num.log2 : ℤ) - den.log2 + 1) * den := by gcongr

/-- The power of two is the logarithm of the fraction. -/
theorem floorLog2_eq_log (hnum : 0 < num) (hden : 0 < den) :
    floorLog2 num den = Int.log 2 ((num : ℚ) / den) := by
  obtain ⟨hlow, hhigh⟩ := ratio_bounds hnum hden
  have hguess : ∀ guess : ℤ, (scaled num den (-guess)).2 ≤ (scaled num den (-guess)).1 ↔
      2 ^ guess ≤ (num : ℚ) / den := by
    intro guess
    have hpos : (0 : ℚ) < (scaled num den (-guess)).2 := Nat.cast_pos.mpr (scaled_pos hden _)
    have hpower : (0 : ℚ) < 2 ^ guess := by positivity
    rw [← Nat.cast_le (α := ℚ), ← one_le_div hpos, scaled_ratio, zpow_neg, ← div_eq_mul_inv,
      one_le_div hpower]
  rw [floorLog2]
  dsimp only
  split
  next h => exact (log_eq ((hguess _).mp h) hhigh).symm
  next h =>
    refine (log_eq hlow ?_).symm
    rw [sub_add_cancel]
    exact not_le.mp fun hle => h ((hguess _).mpr hle)

-- ── The quotient ────────────────────────────────────────────────────────────

/-- To extend a fraction changes nothing of what it is rounded to. -/
theorem roundHalfEven_mul (num den : Nat) {c : Nat} (hc : 0 < c) :
    roundHalfEven (num * c) (den * c) = roundHalfEven num den := by
  have htwice : 2 * (num % den * c) = 2 * (num % den) * c := (Nat.mul_assoc 2 _ c).symm
  have hlt : 2 * (num % den) * c < den * c ↔ 2 * (num % den) < den := Nat.mul_lt_mul_right hc
  have heq : 2 * (num % den) * c = den * c ↔ 2 * (num % den) = den := Nat.mul_left_inj hc.ne'
  rw [roundHalfEven, roundHalfEven, Nat.mul_div_mul_right _ _ hc, Nat.mul_mod_mul_right, htwice]
  simp only [hlt, heq]

/-- Fractions of one value are rounded alike. -/
theorem roundHalfEven_congr (hden : 0 < den) (hden' : 0 < den')
    (h : (num : ℚ) / den = num' / den') : roundHalfEven num den = roundHalfEven num' den' := by
  have hcross : num * den' = num' * den := by
    have hne : (den : ℚ) ≠ 0 := Nat.cast_ne_zero.mpr hden.ne'
    have hne' : (den' : ℚ) ≠ 0 := Nat.cast_ne_zero.mpr hden'.ne'
    exact_mod_cast (div_eq_div_iff hne hne').mp h
  rw [← roundHalfEven_mul num den hden', hcross, Nat.mul_comm den den', roundHalfEven_mul _ _ hden]

/-- What is closer to a whole number than a half is rounded to it. -/
theorem roundHalfEven_of_near {k : Nat} (hden : 0 < den) (hlow : (k : ℚ) - 1 / 2 < num / den)
    (hhigh : (num : ℚ) / den < k + 1 / 2) : roundHalfEven num den = k := by
  have hpos : (0 : ℚ) < den := Nat.cast_pos.mpr hden
  have hlow : 2 * k * den < 2 * num + den := by
    rw [lt_div_iff₀ hpos] at hlow
    have : (2 * k * den : ℚ) < 2 * num + den := by linarith
    exact_mod_cast this
  have hhigh : 2 * num < 2 * k * den + den := by
    rw [div_lt_iff₀ hpos] at hhigh
    have : (2 * num : ℚ) < 2 * k * den + den := by linarith
    exact_mod_cast this
  have hnum : num = den * (num / den) + num % den := (Nat.div_add_mod num den).symm
  have hrest : num % den < den := Nat.mod_lt num hden
  rw [roundHalfEven]
  generalize num / den = q at hnum ⊢
  generalize num % den = r at hnum hrest ⊢
  -- the quotient is the number, or the number before it
  have hq : k = q ∨ k = q + 1 := by
    have hle : k ≤ q + 1 := by
      by_contra hlt
      have : (q + 2) * den ≤ k * den := Nat.mul_le_mul_right den (by omega)
      nlinarith
    have hge : q ≤ k := by
      by_contra hlt
      have : (k + 1) * den ≤ q * den := Nat.mul_le_mul_right den (by omega)
      nlinarith
    omega
  rcases hq with rfl | rfl
  · have hless : 2 * r < den := by nlinarith
    rw [if_pos (Or.inl hless)]
  · have hmore : den < 2 * r := by nlinarith
    rw [if_neg (by omega)]

/-- What lies below a whole number is not rounded above it. -/
theorem roundHalfEven_le {k : Nat} (hden : 0 < den) (h : (num : ℚ) / den < k) : roundHalfEven num den ≤ k := by
  have hquotient : num / den < k := by
    rw [div_lt_iff₀ (Nat.cast_pos.mpr hden)] at h
    refine Nat.div_lt_of_lt_mul ?_
    rw [Nat.mul_comm]
    exact_mod_cast h
  rw [roundHalfEven]
  split
  · exact hquotient.le
  · exact hquotient

/-- **What lies well below the infinities is rounded to a finite magnitude.** -/
theorem nearestMagnitude_lt (hnum : 0 < num) (hden : 0 < den) (h : (num : ℚ) / den < 2 ^ (1023 : ℤ)) :
    nearestMagnitude num den < infinityMagnitude := by
  have hpos : (0 : ℚ) < num / den := div_pos (Nat.cast_pos.mpr hnum) (Nat.cast_pos.mpr hden)
  have hlog : floorLog2 num den < 1023 := by
    rw [floorLog2_eq_log hnum hden, ← Int.lt_zpow_iff_log_lt (by decide) hpos]
    exact_mod_cast h
  have hnext : (num : ℚ) / den < 2 ^ (floorLog2 num den + 1) := by
    rw [floorLog2_eq_log hnum hden]
    exact_mod_cast Int.lt_zpow_succ_log_self (by decide : 1 < 2) ((num : ℚ) / den)
  rw [nearestMagnitude]
  dsimp only
  generalize hpower : max (floorLog2 num den - 52) (-1074) = power
  have hquotient : roundHalfEven (scaled num den (-power)).1 (scaled num den (-power)).2 ≤ 2 ^ 53 := by
    have hunit : (0 : ℚ) < 2 ^ power := by positivity
    refine roundHalfEven_le (scaled_pos hden _) ?_
    rw [scaled_ratio, zpow_neg, ← div_eq_mul_inv, div_lt_iff₀ hunit]
    calc (num : ℚ) / den < 2 ^ (floorLog2 num den + 1) := hnext
      _ ≤ 2 ^ (53 + power) := (zpow_le_zpow_iff_right₀ one_lt_two).mpr (by omega)
      _ = (2 ^ 53 : ℕ) * 2 ^ power := by
        rw [zpow_add₀ two_ne_zero]
        norm_num
  have hexponent : (power + 1074).toNat ≤ 2044 := by omega
  calc (power + 1074).toNat * 0x10000000000000 + _
      ≤ 2044 * 0x10000000000000 + 2 ^ 53 := Nat.add_le_add (Nat.mul_le_mul_right _ hexponent) hquotient
    _ < infinityMagnitude := by decide

-- ── Only the value matters ──────────────────────────────────────────────────

/-- Fractions of one value are rounded alike. -/
theorem nearestMagnitude_congr (hnum : 0 < num) (hden : 0 < den) (hnum' : 0 < num') (hden' : 0 < den')
    (h : (num : ℚ) / den = num' / den') : nearestMagnitude num den = nearestMagnitude num' den' := by
  have hlog : floorLog2 num den = floorLog2 num' den' := by
    rw [floorLog2_eq_log hnum hden, floorLog2_eq_log hnum' hden', h]
  rw [nearestMagnitude, nearestMagnitude, hlog]
  dsimp only
  congr 1
  refine roundHalfEven_congr (scaled_pos hden _) (scaled_pos hden' _) ?_
  rw [scaled_ratio, scaled_ratio, h]

/-- **Decimals of one value denote one sample.** -/
theorem nearest?_congr (negative : Bool) {d e : Decimal} (h : d.value = e.value) :
    nearest? negative d = nearest? negative e := by
  by_cases hd : d.units = 0
  · have he : e.units = 0 := by
      by_contra he
      have := Decimal.value_pos he
      rw [← h, Decimal.value, hd, Nat.cast_zero, zero_mul] at this
      exact lt_irrefl 0 this
    rw [nearest?, if_pos hd, nearest?, if_pos he]
  · have he : e.units ≠ 0 := Decimal.units_ne_zero (h ▸ Decimal.value_pos hd)
    have hratio : (d.numerator : ℚ) / d.denominator = e.numerator / e.denominator := by
      rw [← Decimal.value_eq_div, ← Decimal.value_eq_div, h]
    rw [nearest?, if_neg hd, nearest?, if_neg he, Decimal.top_congr hd h,
      nearestMagnitude_congr (Decimal.numerator_pos hd) d.denominator_pos (Decimal.numerator_pos he)
        e.denominator_pos hratio]

/-- A magnitude in range is kept. -/
theorem magnitude_ofMagnitude (negative : Bool) {m : Nat} (h : m < 0x8000000000000000) :
    (ofMagnitude negative m).magnitude = m := by
  rw [ofMagnitude, magnitude, UInt64.toNat_ofNat']
  cases negative with
  | true =>
    rw [if_pos rfl]
    omega
  | false =>
    rw [if_neg Bool.false_ne_true]
    omega

/-- The sign of a decimal is the sign of the sample, and nothing else. -/
theorem nearest?_sign (negative : Bool) (d : Decimal) :
    nearest? negative d = (nearest? false d).map fun x => ofMagnitude negative x.magnitude := by
  have hzero : (ofMagnitude false 0).magnitude = 0 := magnitude_ofMagnitude false (by decide)
  rw [nearest?, nearest?]
  split
  · rw [Option.map_some, hzero]
  · split
    · rfl
    · split
      · rw [Option.map_some, hzero]
      · dsimp only
        split
        next hm =>
          rw [Option.map_some, magnitude_ofMagnitude false (Nat.lt_trans hm (by decide))]
        next => rfl

-- ── The parts of a sample ───────────────────────────────────────────────────

variable {x : Binary64}

/-- The magnitude of a finite sample, exactly. -/
def value (x : Binary64) : ℚ := x.significand * 2 ^ x.exponent

/-- The least exponent. -/
theorem exponent_ge (x : Binary64) : -1074 ≤ x.exponent := by
  rw [exponent]
  split <;> omega

/-- The greatest exponent of a finite number. -/
theorem exponent_le (h : x.isFinite = true) : x.exponent ≤ 971 := by
  have hm : x.magnitude < infinityMagnitude := of_decide_eq_true h
  rw [infinityMagnitude] at hm
  rw [exponent]
  split <;> omega

/-- A significand has 53 bits. -/
theorem significand_lt (x : Binary64) : x.significand < 2 ^ 53 := by
  rw [significand]
  split <;> omega

/-- Below the normal samples the exponent is the least one. -/
theorem exponent_eq_or (x : Binary64) : x.exponent = -1074 ∨ 2 ^ 52 ≤ x.significand := by
  rw [exponent, significand]
  split
  · exact Or.inl rfl
  · exact Or.inr (by omega)

/-- What is not zero has a significand. -/
theorem significand_pos (h : x.isZero = false) : 0 < x.significand := by
  have hm : x.magnitude ≠ 0 := beq_eq_false_iff_ne.mp h
  rw [significand]
  split <;> omega

/-- Magnitudes are numbered without a gap, significand after significand. -/
theorem magnitude_eq (x : Binary64) :
    x.magnitude = (x.exponent + 1074).toNat * 0x10000000000000 + x.significand := by
  rw [exponent, significand]
  split <;> omega

-- ── What is near a sample ───────────────────────────────────────────────────

/-- A number that lies closer to a sample than half the way to the next one. Below a power of
    two the next one is only half as far. -/
structure Near (x : Binary64) (r : ℚ) : Prop where
  above : r < (x.significand + 1 / 2) * 2 ^ x.exponent
  below : (x.significand - 1 / 2) * 2 ^ x.exponent < r
  edge : x.significand = 2 ^ 52 → (x.significand - 1 / 4) * 2 ^ x.exponent < r

namespace Near

variable {r : ℚ}

/-- What is near a number is below the power of two above it. -/
theorem lt_pow (h : Near x r) : r < 2 ^ (x.exponent + 53) := by
  have hpower : (0 : ℚ) < 2 ^ x.exponent := by positivity
  have hsignificand : (x.significand : ℚ) + 1 ≤ 2 ^ 53 := by exact_mod_cast x.significand_lt
  calc r < (x.significand + 1 / 2) * 2 ^ x.exponent := h.above
    _ ≤ 2 ^ 53 * 2 ^ x.exponent := by
      gcongr
      linarith
    _ = 2 ^ (x.exponent + 53) := by
      rw [zpow_add₀ two_ne_zero, mul_comm]
      norm_num

/-- What is near a number is above half of its last place. -/
theorem pow_lt (h : Near x r) (hpos : 0 < x.significand) : 2 ^ (x.exponent - 1) < r := by
  have hpower : (0 : ℚ) < 2 ^ x.exponent := by positivity
  have hsignificand : (1 : ℚ) ≤ x.significand := by exact_mod_cast hpos
  calc (2 : ℚ) ^ (x.exponent - 1) = 1 / 2 * 2 ^ x.exponent := by
        rw [zpow_sub_one₀ two_ne_zero]
        ring
    _ ≤ (x.significand - 1 / 2) * 2 ^ x.exponent := by
      gcongr
      linarith
    _ < r := h.below

end Near

/-- Where the power of two is that of the sample, the quotient is rounded to its significand. -/
theorem nearestMagnitude_of_power (hden : 0 < den) (h : Near x (num / den))
    (hpower : max (floorLog2 num den - 52) (-1074) = x.exponent) :
    nearestMagnitude num den = x.magnitude := by
  have hunit : (0 : ℚ) < 2 ^ x.exponent := by positivity
  rw [nearestMagnitude, hpower, magnitude_eq]
  dsimp only
  congr 1
  refine roundHalfEven_of_near (scaled_pos hden _) ?_ ?_
  · rw [scaled_ratio, zpow_neg, ← div_eq_mul_inv, lt_div_iff₀ hunit]
    exact h.below
  · rw [scaled_ratio, zpow_neg, ← div_eq_mul_inv, div_lt_iff₀ hunit]
    exact h.above

/-- Right below a power of two the quotient has a power less, and is rounded up to it. -/
theorem nearestMagnitude_of_edge (hnum : 0 < num) (hden : 0 < den) (h : Near x (num / den))
    (hsignificand : x.significand = 2 ^ 52) (hexponent : -1074 < x.exponent)
    (hless : (num : ℚ) / den < 2 ^ (x.exponent + 52)) : nearestMagnitude num den = x.magnitude := by
  have hunit : (0 : ℚ) < 2 ^ (x.exponent - 1) := by positivity
  have hdouble : (2 : ℚ) ^ x.exponent = 2 * 2 ^ (x.exponent - 1) := by
    rw [zpow_sub_one₀ two_ne_zero]
    ring
  have hedge := h.edge hsignificand
  rw [hsignificand, hdouble] at hedge
  have hfloor : floorLog2 num den = x.exponent + 51 := by
    rw [floorLog2_eq_log hnum hden]
    have hnext : x.exponent + 51 + 1 = x.exponent + 52 := by ring
    refine log_eq ?_ (hnext ▸ hless)
    rw [show x.exponent + 51 = (x.exponent - 1) + 52 by ring, zpow_add₀ two_ne_zero]
    refine le_trans ?_ hedge.le
    push_cast
    nlinarith
  have hpower : max (floorLog2 num den - 52) (-1074) = x.exponent - 1 := by omega
  have hround : roundHalfEven (scaled num den (-(x.exponent - 1))).1 (scaled num den (-(x.exponent - 1))).2
      = 2 ^ 53 := by
    refine roundHalfEven_of_near (scaled_pos hden _) ?_ ?_
    · rw [scaled_ratio, zpow_neg, ← div_eq_mul_inv, lt_div_iff₀ hunit]
      refine lt_of_le_of_lt (le_of_eq ?_) hedge
      push_cast
      ring
    · rw [scaled_ratio, zpow_neg, ← div_eq_mul_inv, div_lt_iff₀ hunit]
      refine hless.trans_le ?_
      rw [show x.exponent + 52 = (x.exponent - 1) + 53 by ring, zpow_add₀ two_ne_zero]
      push_cast
      nlinarith
  rw [nearestMagnitude, hpower, magnitude_eq, hsignificand]
  dsimp only
  rw [hround]
  omega

/-- What is near a sample has the magnitude of the sample. -/
theorem nearestMagnitude_of_near (hnum : 0 < num) (hden : 0 < den) (h : Near x (num / den)) :
    nearestMagnitude num den = x.magnitude := by
  have hpos : (0 : ℚ) < num / den := div_pos (Nat.cast_pos.mpr hnum) (Nat.cast_pos.mpr hden)
  have hlog : floorLog2 num den < x.exponent + 53 := by
    rw [floorLog2_eq_log hnum hden, ← Int.lt_zpow_iff_log_lt (by decide) hpos]
    exact_mod_cast h.lt_pow
  have hleast := x.exponent_ge
  by_cases hreach : (2 : ℚ) ^ (x.exponent + 52) ≤ num / den
  · have hle : x.exponent + 52 ≤ floorLog2 num den := by
      rw [floorLog2_eq_log hnum hden, ← Int.zpow_le_iff_le_log (by decide) hpos]
      exact_mod_cast hreach
    exact nearestMagnitude_of_power hden h (by omega)
  · rcases x.exponent_eq_or with heq | hnormal
    · exact nearestMagnitude_of_power hden h (by omega)
    · by_cases hexponent : x.exponent = -1074
      · exact nearestMagnitude_of_power hden h (by omega)
      · -- the number lies below the power of two, and a half away it would be nearer to the next
        have hless := not_le.mp hreach
        have hsignificand : x.significand = 2 ^ 52 := by
          have hunit : (0 : ℚ) < 2 ^ x.exponent := by positivity
          have hbelow := h.below.trans hless
          rw [add_comm, zpow_add₀ two_ne_zero] at hbelow
          have hhalf : (x.significand : ℚ) - 1 / 2 < 2 ^ (52 : ℤ) := lt_of_mul_lt_mul_right hbelow hunit.le
          have : (2 * x.significand : ℚ) < 2 * 2 ^ 52 + 1 := by
            norm_num at hhalf ⊢
            linarith
          have : 2 * x.significand < 2 * 2 ^ 52 + 1 := by exact_mod_cast this
          omega
        exact nearestMagnitude_of_edge hnum hden h hsignificand (by omega) hless

/-- **What is near a sample denotes it.** -/
theorem nearest?_of_near {d : Decimal} (hfinite : x.isFinite = true) (hzero : x.isZero = false)
    (h : Near x d.value) : nearest? false d = some (ofMagnitude false x.magnitude) := by
  have hunits : d.units ≠ 0 := by
    refine Decimal.units_ne_zero (lt_trans ?_ (h.pow_lt (significand_pos hzero)))
    positivity
  have hhigh : d.top ≤ 310 := by
    refine Decimal.top_le hunits (h.lt_pow.trans_le ?_)
    calc (2 : ℚ) ^ (x.exponent + 53) ≤ 2 ^ (1024 : ℤ) :=
          (zpow_le_zpow_iff_right₀ one_lt_two).mpr (by have := exponent_le hfinite; omega)
      _ ≤ 10 ^ (310 : ℤ) := by
        have hnat : (2 : ℕ) ^ 1024 ≤ 10 ^ 310 := by decide +kernel
        exact_mod_cast hnat
  have hlow : -331 < d.top := by
    refine Decimal.lt_top (le_trans ?_ (h.pow_lt (significand_pos hzero)).le)
    calc (10 : ℚ) ^ (-331 : ℤ) ≤ 2 ^ (-1075 : ℤ) := by
          have hnat : (2 : ℕ) ^ 1075 ≤ 10 ^ 331 := by decide +kernel
          rw [zpow_neg, zpow_neg]
          exact inv_anti₀ (by positivity) (by exact_mod_cast hnat)
      _ ≤ 2 ^ (x.exponent - 1) :=
          (zpow_le_zpow_iff_right₀ one_lt_two).mpr (by have := x.exponent_ge; omega)
  have hmagnitude : nearestMagnitude d.numerator d.denominator = x.magnitude := by
    refine nearestMagnitude_of_near (Decimal.numerator_pos hunits) d.denominator_pos ?_
    rw [← Decimal.value_eq_div]
    exact h
  rw [nearest?, if_neg hunits, if_neg (by omega), if_neg (by omega), hmagnitude]
  exact if_pos (of_decide_eq_true hfinite)

end MetricDepot.Binary64
