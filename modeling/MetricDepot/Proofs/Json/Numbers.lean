import Mathlib.Algebra.Group.Nat.Defs
import Mathlib.Data.List.TakeWhile
import MetricDepot.Json.Source
import MetricDepot.Proofs.Binary64.Nearest
import MetricDepot.Proofs.Json.Reads
/-!
# Numbers — numerals are read back

    What closes a value begins with no byte that a numeral could go on with, so a numeral is
    read alike at the end of a text and in front of more.  The texts of counts and of signed
    words are numerals of their value, and a count of 64 bits is finite as a sample, which a
    tree asks of all its numbers.

    That the text of a finite sample has the sample as its value is no matter of grammar; a
    sample of which it is true `Survives`.
-/

namespace MetricDepot.Json

-- ── Numerals in front of more ───────────────────────────────────────────────

/-- A run of digits ends with the number. -/
theorem digitRun_append (s : Bytes) {rest : Bytes} (h : Closes rest) :
    digitRun (s ++ rest) = ((digitRun s).1, (digitRun s).2 ++ rest) := by
  induction s with
  | nil => cases h <;> rfl
  | cons b s ih =>
    rw [digitRun, digitRun, Prod.mk.injEq] at ih
    obtain ⟨htake, hdrop⟩ := ih
    by_cases hdigit : Ascii.isDigit b = true
    · simp only [digitRun, List.cons_append, List.takeWhile_cons, List.dropWhile_cons, hdigit, if_true,
        htake, hdrop]
    · simp only [digitRun, List.cons_append, List.takeWhile_cons, List.dropWhile_cons, hdigit,
        Bool.false_eq_true, if_false]

/-- A fraction ends with the number. -/
theorem fraction?_append {s digits after rest : Bytes} (hs : fraction? s = some (digits, after))
    (h : Closes rest) : fraction? (s ++ rest) = some (digits, after ++ rest) := by
  cases s with
  | nil =>
    obtain ⟨rfl, rfl⟩ := Prod.mk.inj (Option.some.inj hs)
    cases h <;> rfl
  | cons b s =>
    rw [fraction?] at hs
    rw [List.cons_append, fraction?]
    split at hs
    next hpoint =>
      rw [if_pos hpoint, digitRun_append s h]
      dsimp only at hs ⊢
      split at hs
      · cases hs
      next hdigits =>
        obtain ⟨rfl, rfl⟩ := Prod.mk.inj (Option.some.inj hs)
        rw [if_neg hdigits]
    next hpoint =>
      obtain ⟨rfl, rfl⟩ := Prod.mk.inj (Option.some.inj hs)
      rw [if_neg hpoint]
      rfl

/-- The sign of an exponent is in front of what closes the number. -/
theorem exponentSign_append (s : Bytes) {rest : Bytes} (h : Closes rest) :
    exponentSign (s ++ rest) = ((exponentSign s).1, (exponentSign s).2 ++ rest) := by
  cases s with
  | nil => cases h <;> rfl
  | cons b s =>
    simp only [exponentSign, List.cons_append]
    split
    · rfl
    · split
      · rfl
      · rfl

/-- An exponent ends with the number. -/
theorem exponent?_append {s after rest : Bytes} {exponent : Option Int}
    (hs : exponent? s = some (exponent, after)) (h : Closes rest) :
    exponent? (s ++ rest) = some (exponent, after ++ rest) := by
  cases s with
  | nil =>
    obtain ⟨rfl, rfl⟩ := Prod.mk.inj (Option.some.inj hs)
    cases h <;> rfl
  | cons b s =>
    rw [exponent?] at hs
    rw [List.cons_append, exponent?]
    split at hs
    next hletter =>
      rw [if_pos hletter, exponentSign_append s h]
      dsimp only at hs ⊢
      rw [digitRun_append _ h]
      dsimp only
      split at hs
      · cases hs
      next hdigits =>
        obtain ⟨rfl, rfl⟩ := Prod.mk.inj (Option.some.inj hs)
        rw [if_neg hdigits]
    next hletter =>
      obtain ⟨rfl, rfl⟩ := Prod.mk.inj (Option.some.inj hs)
      rw [if_neg hletter]
      rfl

/-- The sign of a numeral and what remains after it. -/
def sign (s : Bytes) : Bool × Bytes :=
  match s with
  | b :: rest => if b = Ascii.minus then (true, rest) else (false, s)
  | [] => (false, [])

/-- A numeral behind its sign. -/
def unsigned? (negative : Bool) (s : Bytes) : Option (Numeral × Bytes) :=
  let whole := (digitRun s).1
  if whole.isEmpty || (whole.length != 1 && whole.head? == some Ascii.zero) then none
  else
    (fraction? (digitRun s).2).bind fun (fraction, afterFraction) =>
      (exponent? afterFraction).map fun (exponent, after) =>
        let trimmed := trimFraction fraction
        (⟨negative, ⟨Ascii.value (whole ++ trimmed), exponent.getD 0 - trimmed.length⟩,
          fraction.isEmpty && exponent.isNone⟩, after)

/-- A numeral is a sign and what stands behind it. -/
theorem numeral?_eq (s : Bytes) : numeral? s = unsigned? (sign s).1 (sign s).2 := by
  show (do
    if (digitRun (sign s).2).1.isEmpty || ((digitRun (sign s).2).1.length != 1 &&
        (digitRun (sign s).2).1.head? == some Ascii.zero) then none
    let (fraction, afterFraction) ← fraction? (digitRun (sign s).2).2
    let (exponent, after) ← exponent? afterFraction
    let trimmed := trimFraction fraction
    let decimal : Decimal := ⟨Ascii.value ((digitRun (sign s).2).1 ++ trimmed),
      exponent.getD 0 - trimmed.length⟩
    return ((⟨(sign s).1, decimal, fraction.isEmpty && exponent.isNone⟩ : Numeral), after)) = _
  rw [unsigned?]
  dsimp only
  split
  · rfl
  · cases fraction? (digitRun (sign s).2).2 with
    | none => rfl
    | some step =>
      obtain ⟨fraction, afterFraction⟩ := step
      show (exponent? afterFraction >>= _) = (exponent? afterFraction).map _
      cases exponent? afterFraction with
      | none => rfl
      | some step => rfl

/-- A number without its sign is read alike whatever closes it. -/
theorem unsigned?_append {negative : Bool} {s after rest : Bytes} {n : Numeral}
    (hs : unsigned? negative s = some (n, after)) (h : Closes rest) :
    unsigned? negative (s ++ rest) = some (n, after ++ rest) := by
  rw [unsigned?] at hs ⊢
  rw [digitRun_append s h]
  dsimp only at hs ⊢
  split at hs
  · cases hs
  next hwhole =>
    rw [if_neg hwhole]
    obtain ⟨⟨fraction, afterFraction⟩, hfraction, hs⟩ := Option.bind_eq_some_iff.mp hs
    obtain ⟨⟨exponent, last⟩, hexponent, hn⟩ := Option.map_eq_some_iff.mp hs
    obtain ⟨rfl, rfl⟩ := Prod.mk.inj hn
    rw [fraction?_append hfraction h, Option.bind_some]
    dsimp only
    rw [exponent?_append hexponent h]
    rfl

/-- A number is read alike whatever closes it. -/
theorem numeral?_append {s after rest : Bytes} {n : Numeral} (hs : numeral? s = some (n, after))
    (h : Closes rest) : numeral? (s ++ rest) = some (n, after ++ rest) := by
  rw [numeral?_eq] at hs ⊢
  cases s with
  | nil => cases hs
  | cons b s =>
    by_cases hb : b = Ascii.minus
    · simp only [sign, List.cons_append, if_pos hb] at hs ⊢
      exact unsigned?_append hs h
    · simp only [sign, List.cons_append, if_neg hb] at hs ⊢
      exact unsigned?_append hs h

/-- A numeral begins with a sign or a digit. -/
theorem first_of_numeral? {s : Bytes} {r : Numeral × Bytes} (hs : numeral? s = some r) :
    ∃ b rest, s = b :: rest ∧ (b = Ascii.minus ∨ Ascii.isDigit b = true) := by
  rw [numeral?_eq] at hs
  cases s with
  | nil => cases hs
  | cons b rest =>
    refine ⟨b, rest, rfl, ?_⟩
    by_cases hb : b = Ascii.minus
    · exact Or.inl hb
    · right
      simp only [sign, if_neg hb, unsigned?] at hs
      split at hs
      · cases hs
      next hwhole =>
        cases hdigit : Ascii.isDigit b with
        | true => rfl
        | false =>
          refine absurd ?_ hwhole
          simp [digitRun, hdigit]

/-- A number does not begin with a blank. -/
theorem isBlank_of_first {b : UInt8} (h : b = Ascii.minus ∨ Ascii.isDigit b = true) :
    isBlank b = false := by
  cases hblank : isBlank b with
  | false => rfl
  | true =>
    simp only [isBlank, Bool.or_eq_true, beq_iff_eq] at hblank
    rcases hblank with ((rfl | rfl) | rfl) | rfl
    all_goals exact absurd h (by decide)

/-- **A numeral is read back in front of whatever closes it.** -/
theorem reads_numeral {text : Bytes} {n : Numeral} (h : numeral? text = some (n, [])) :
    Reads numeral text n := by
  intro rest hrest
  obtain ⟨b, tail, rfl, hfirst⟩ := first_of_numeral? h
  have hnumeral := numeral?_append h hrest
  rw [List.nil_append] at hnumeral
  rw [List.cons_append] at hnumeral ⊢
  rw [numeral, lexeme, skipBlank_cons (isBlank_of_first hfirst), hnumeral]

-- ── Texts of whole numbers ──────────────────────────────────────────────────

/-- A text of digits is one run of them. -/
theorem digitRun_of_digits {s : Bytes} (h : ∀ b ∈ s, Ascii.isDigit b = true) :
    digitRun s = (s, []) := by
  rw [digitRun, List.takeWhile_eq_self_iff.mpr h, List.dropWhile_eq_nil_iff.mpr h]

/-- The text of a number that is not zero begins with no zero. -/
theorem head?_naturalOnto {fuel n : Nat} (hfuel : n < fuel) (hn : 0 < n) (rest : Bytes) :
    (Ascii.naturalOnto fuel n rest).head? ≠ some Ascii.zero := by
  induction fuel generalizing n rest with
  | zero => exact absurd hfuel (Nat.not_lt_zero n)
  | succ fuel ih =>
    rw [Ascii.naturalOnto]
    split
    next hdigit =>
      intro hzero
      have hvalue := Ascii.digitValue_digit hdigit
      rw [Option.some.inj hzero] at hvalue
      have hnone : Ascii.digitValue Ascii.zero = 0 := rfl
      omega
    next hdigits => exact ih (by omega) (by omega) _

/-- A natural number is read back from its digits. -/
theorem unsigned?_natural (negative : Bool) (n : Nat) :
    unsigned? negative (Ascii.natural n) = some (⟨negative, ⟨n, 0⟩, true⟩, []) := by
  have hwhole : ((Ascii.natural n).isEmpty
      || ((Ascii.natural n).length != 1 && (Ascii.natural n).head? == some Ascii.zero)) = false := by
    have hempty : (Ascii.natural n).isEmpty = false :=
      List.isEmpty_eq_false_iff.mpr (Ascii.natural_ne_nil n)
    rw [hempty, Bool.false_or]
    rcases Nat.eq_zero_or_pos n with rfl | hn
    · rfl
    · have hhead := head?_naturalOnto (Nat.lt_succ_self n) hn []
      rw [Bool.and_eq_false_iff]
      exact Or.inr (beq_eq_false_iff_ne.mpr hhead)
  have hvalue : Ascii.value (Ascii.natural n ++ []) = n := by
    rw [List.append_nil, Ascii.value_natural]
  rw [unsigned?, digitRun_of_digits (Ascii.isDigit_of_mem_natural n)]
  dsimp only
  rw [hwhole]
  show some (_, _) = _
  rw [show trimFraction [] = [] from rfl, hvalue]
  rfl

/-- So it is as a number with a sign that may be missing. -/
theorem numeral?_natural (n : Nat) :
    numeral? (Ascii.natural n) = some (⟨false, ⟨n, 0⟩, true⟩, []) := by
  have hsign : sign (Ascii.natural n) = (false, Ascii.natural n) := by
    cases h : Ascii.natural n with
    | nil => rfl
    | cons b rest =>
      have hb : Ascii.isDigit b = true :=
        Ascii.isDigit_of_mem_natural n b (h ▸ List.mem_cons_self)
      have hminus : b ≠ Ascii.minus := by
        rintro rfl
        exact absurd hb (by decide)
      rw [sign, if_neg hminus]
  rw [numeral?_eq, hsign, unsigned?_natural]

/-- A whole number is read back with its sign. -/
theorem numeral?_integer (i : Int) :
    numeral? (Ascii.integer i) = some (⟨decide (i < 0), ⟨i.natAbs, 0⟩, true⟩, []) := by
  rw [Ascii.integer]
  split
  next h =>
    rw [numeral?_eq, decide_eq_true h]
    exact unsigned?_natural true i.natAbs
  next h => rw [numeral?_natural, decide_eq_false h]

/-- The text of a signed word is read back. -/
theorem reads_signed (t : Int64) : Reads signed (Ascii.integer t.toInt) t := by
  refine (reads_numeral (numeral?_integer t.toInt)).bind_pure fun rest => ?_
  have hlow : -2 ^ 63 ≤ t.toInt := Int64.le_toInt t
  have hhigh : t.toInt < 2 ^ 63 := Int64.toInt_lt t
  have hword : (⟨decide (t.toInt < 0), ⟨t.toInt.natAbs, 0⟩, true⟩ : Numeral).toSigned? = some t := by
    rw [Numeral.toSigned?]
    dsimp only
    by_cases hnegative : t.toInt < 0
    · have hvalue : -((t.toInt.natAbs : Nat) : Int) = t.toInt := by omega
      rw [decide_eq_true hnegative, if_neg (by decide), if_pos rfl, if_pos (by omega), hvalue,
        Int64.ofInt_toInt]
    · have hvalue : ((t.toInt.natAbs : Nat) : Int) = t.toInt := by omega
      rw [decide_eq_false hnegative, if_neg (by decide), if_neg (by decide), if_pos (by omega), hvalue,
        Int64.ofInt_toInt]
  rw [hword]
  rfl

/-- A natural number below the bound is a count. -/
theorem toCount?_natural {n bound : Nat} (h : n < bound) :
    (⟨false, ⟨n, 0⟩, true⟩ : Numeral).toCount? bound = some n := by
  rw [Numeral.toCount?, if_pos (by simpa using h)]

/-- It is read back as the count. -/
theorem reads_toCount {n bound : Nat} (h : n < bound) :
    Reads (do orFail ((← numeral).toCount? bound)) (Ascii.natural n) n := by
  refine (reads_numeral (numeral?_natural n)).bind_pure fun rest => ?_
  rw [toCount?_natural h]
  rfl

-- ── Counts are finite ───────────────────────────────────────────────────────

/-- A count is finite as a sample, as a tree asks of every number. -/
theorem isSome_toBinary64?_count {n : Nat} (h : n < UInt64.size) :
    (⟨false, ⟨n, 0⟩, true⟩ : Numeral).toBinary64?.isSome = true := by
  have hdigits : (⟨n, 0⟩ : Decimal).digitCount ≤ 20 :=
    Decimal.digitCount_le (by decide) (Nat.lt_trans h (by decide))
  rw [Numeral.toBinary64?, Decimal.clipped_of_le (Nat.le_trans hdigits (by decide)), Binary64.nearest?]
  by_cases hn : n = 0
  · rw [if_pos hn]
    rfl
  · have htop : (⟨n, 0⟩ : Decimal).top = ((⟨n, 0⟩ : Decimal).digitCount : Int) := Int.add_zero _
    have hnumerator : (⟨n, 0⟩ : Decimal).numerator = n := Nat.mul_one n
    have hdenominator : (⟨n, 0⟩ : Decimal).denominator = 1 := rfl
    have hfinite : Binary64.nearestMagnitude n 1 < Binary64.infinityMagnitude := by
      refine Binary64.nearestMagnitude_lt (Nat.pos_of_ne_zero hn) Nat.one_pos ?_
      rw [Nat.cast_one, div_one]
      have hpower : n < 2 ^ 1023 := Nat.lt_trans h (by decide +kernel)
      exact_mod_cast hpower
    rw [if_neg hn, htop, if_neg (by omega), if_neg (by omega), hnumerator, hdenominator]
    dsimp only
    rw [if_pos hfinite]
    rfl

-- ── Samples ─────────────────────────────────────────────────────────────────

/-- The text of the number is read as the number. -/
def Survives (x : Binary64) : Prop :=
  ∃ n, numeral? (finiteText x) = some (n, []) ∧ n.toBinary64? = some x

instance (x : Binary64) : Decidable (Survives x) :=
  decidable_of_iff ((numeral? (finiteText x)).any fun r => r.2 = [] ∧ r.1.toBinary64? = some x) (by
    simp only [Option.any_eq_true, decide_eq_true_eq]
    constructor
    · rintro ⟨⟨n, rest⟩, hnumeral, rfl, hvalue⟩
      exact ⟨n, hnumeral, hvalue⟩
    · rintro ⟨n, hnumeral, hvalue⟩
      exact ⟨(n, []), hnumeral, rfl, hvalue⟩)

/-- What is not finite is read back from its name, NaNs as the one of that name. -/
theorem special?_specialName {x : Binary64} (h : x.isFinite = false) :
    special? (specialName x) = some x.canonical := by
  cases hnan : x.isNaN with
  | true =>
    rw [specialName, hnan, Binary64.canonical, hnan]
    rfl
  | false =>
    have hmagnitude : x.magnitude = Binary64.infinityMagnitude := by
      simp only [Binary64.isFinite, Binary64.isNaN, decide_eq_false_iff_not] at h hnan
      omega
    have hinfinity : x = Binary64.infinity x.isNegative := by
      rw [Binary64.infinity, ← hmagnitude, Binary64.ofMagnitude_parts]
    rw [specialName, hnan, Binary64.canonical, hnan]
    cases hsign : x.isNegative with
    | true =>
      rw [hsign] at hinfinity
      rw [hinfinity]
      rfl
    | false =>
      rw [hsign] at hinfinity
      rw [hinfinity]
      rfl

end MetricDepot.Json
