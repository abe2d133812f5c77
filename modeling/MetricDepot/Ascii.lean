import MetricDepot.Bytes
/-!
# ASCII — the characters of the formats, as bytes

The formats of this library are read and written as bytes. This module names the bytes
that carry structure, and writes natural numbers in decimal: `value_natural` says that
the text of a number has its value.
-/

namespace MetricDepot.Ascii

-- ── Named bytes ─────────────────────────────────────────────────────────────

/-- Line feed. -/
abbrev lineFeed : UInt8 := 0x0A
/-- Carriage return. -/
abbrev carriageReturn : UInt8 := 0x0D
/-- Horizontal tab. -/
abbrev tab : UInt8 := 0x09
/-- Space. -/
abbrev space : UInt8 := 0x20
/-- The double quote. -/
abbrev quote : UInt8 := 0x22
/-- The plus sign. -/
abbrev plus : UInt8 := 0x2B
/-- The comma. -/
abbrev comma : UInt8 := 0x2C
/-- The minus sign. -/
abbrev minus : UInt8 := 0x2D
/-- The full stop. -/
abbrev point : UInt8 := 0x2E
/-- The slash. -/
abbrev slash : UInt8 := 0x2F
/-- The digit zero. -/
abbrev zero : UInt8 := 0x30
/-- The colon. -/
abbrev colon : UInt8 := 0x3A
/-- The opening bracket. -/
abbrev openBracket : UInt8 := 0x5B
/-- The backslash. -/
abbrev backslash : UInt8 := 0x5C
/-- The closing bracket. -/
abbrev closeBracket : UInt8 := 0x5D
/-- The letter b. -/
abbrev letterB : UInt8 := 0x62
/-- The letter e. -/
abbrev letterE : UInt8 := 0x65
/-- The capital letter E. -/
abbrev capitalE : UInt8 := 0x45
/-- The letter f. -/
abbrev letterF : UInt8 := 0x66
/-- The letter n. -/
abbrev letterN : UInt8 := 0x6E
/-- The letter r. -/
abbrev letterR : UInt8 := 0x72
/-- The letter t. -/
abbrev letterT : UInt8 := 0x74
/-- The letter u. -/
abbrev letterU : UInt8 := 0x75
/-- The opening brace. -/
abbrev openBrace : UInt8 := 0x7B
/-- The closing brace. -/
abbrev closeBrace : UInt8 := 0x7D

-- ── Digits ──────────────────────────────────────────────────────────────────

/-- Whether a byte is a decimal digit. -/
def isDigit (b : UInt8) : Bool := 0x30 ≤ b && b ≤ 0x39

/-- The byte of a digit below ten. -/
def digit (d : Nat) : UInt8 := UInt8.ofNat (48 + d)

/-- The value of a digit byte. -/
def digitValue (b : UInt8) : Nat := b.toNat - 48

/-- The value of a hexadecimal digit of either case. -/
def hexValue? (b : UInt8) : Option Nat :=
  if 0x30 ≤ b && b ≤ 0x39 then some (b.toNat - 48)
  else if 0x41 ≤ b && b ≤ 0x46 then some (b.toNat - 55)
  else if 0x61 ≤ b && b ≤ 0x66 then some (b.toNat - 87)
  else none

/-- The lower-case byte of a hexadecimal digit below sixteen. -/
def hexDigit (d : Nat) : UInt8 := UInt8.ofNat (if d < 10 then 48 + d else 87 + d)

/-- The number that a run of digits denotes. -/
def value (digits : Bytes) : Nat := digits.foldl (fun n b => 10 * n + digitValue b) 0

/-- The decimal text of a number, in front of `rest`. The fuel bounds the number of digits. -/
def naturalOnto : (fuel : Nat) → Nat → Bytes → Bytes
  | 0, _, rest => rest
  | fuel + 1, n, rest =>
      if n < 10 then digit n :: rest else naturalOnto fuel (n / 10) (digit (n % 10) :: rest)

/-- The decimal text of a number: no leading zero, and one digit for zero. -/
def natural (n : Nat) : Bytes := naturalOnto (n + 1) n []

/-- The decimal text of an integer. -/
def integer (i : Int) : Bytes :=
  if i < 0 then minus :: natural i.natAbs else natural i.natAbs

-- ── Numbers and their texts ─────────────────────────────────────────────────

theorem digitValue_digit {d : Nat} (h : d < 10) : digitValue (digit d) = d := by
  simp only [digitValue, digit, UInt8.toNat_ofNat']
  omega

theorem isDigit_digit {d : Nat} (h : d < 10) : isDigit (digit d) = true := by
  have low : (digit d).toNat = 48 + d := by rw [digit, UInt8.toNat_ofNat']; omega
  have atLeast : (0x30 : UInt8) ≤ digit d := UInt8.le_iff_toNat_le.mpr (low ▸ Nat.le_add_right 48 d)
  have atMost : digit d ≤ (0x39 : UInt8) :=
    UInt8.le_iff_toNat_le.mpr (low ▸ Nat.add_le_add_left (Nat.le_of_lt_succ h) 48)
  rw [isDigit, decide_eq_true atLeast, decide_eq_true atMost]
  rfl

theorem foldl_value_digits (rest : Bytes) (n : Nat) :
    rest.foldl (fun n b => 10 * n + digitValue b) n = n * Nat.pow 10 rest.length + value rest := by
  induction rest generalizing n with
  | nil => simp [value]
  | cons b rest ih =>
    have tail : value (b :: rest) = digitValue b * Nat.pow 10 rest.length + value rest := by
      rw [value, List.foldl_cons, ih, Nat.mul_zero, Nat.zero_add]
    have hpow : Nat.pow 10 (rest.length + 1) = 10 * Nat.pow 10 rest.length := Nat.pow_succ'
    rw [List.foldl_cons, ih, tail, List.length_cons, hpow, Nat.add_mul,
      Nat.mul_comm 10 n, Nat.mul_assoc, Nat.add_assoc]

theorem value_cons (b : UInt8) (rest : Bytes) :
    value (b :: rest) = digitValue b * Nat.pow 10 rest.length + value rest := by
  rw [value, List.foldl_cons, foldl_value_digits]
  simp

theorem naturalOnto_spec (fuel n : Nat) (rest : Bytes) (h : n < fuel) :
    ∃ digits : Bytes, naturalOnto fuel n rest = digits ++ rest ∧ digits ≠ [] ∧
      (∀ b ∈ digits, isDigit b = true) ∧
      ∀ tail : Bytes, value (digits ++ tail) = n * Nat.pow 10 tail.length + value tail := by
  induction fuel generalizing n rest with
  | zero => omega
  | succ fuel ih =>
    rw [naturalOnto]
    split
    next hn =>
      refine ⟨[digit n], rfl, by simp, by simpa using isDigit_digit hn, fun tail => ?_⟩
      rw [List.singleton_append, value_cons, digitValue_digit hn]
    next hn =>
      have hlast : n % 10 < 10 := Nat.mod_lt _ (by decide)
      obtain ⟨front, hfront, _, hdigits, hvalue⟩ :=
        ih (n / 10) (digit (n % 10) :: rest) (by omega)
      refine ⟨front ++ [digit (n % 10)], by simp [hfront], by simp, ?_, fun tail => ?_⟩
      · intro b hb
        rcases List.mem_append.mp hb with hb | hb
        · exact hdigits b hb
        · rw [List.mem_singleton.mp hb]; exact isDigit_digit hlast
      · have hpow : Nat.pow 10 (tail.length + 1) = 10 * Nat.pow 10 tail.length := Nat.pow_succ'
        rw [List.append_assoc, List.singleton_append, hvalue, value_cons, digitValue_digit hlast,
          List.length_cons, hpow, ← Nat.mul_assoc, ← Nat.add_assoc, ← Nat.add_mul]
        have : n / 10 * 10 + n % 10 = n := by omega
        rw [this]

/-- The text of a number has its value. -/
theorem value_natural (n : Nat) : value (natural n) = n := by
  obtain ⟨digits, htext, _, _, hvalue⟩ := naturalOnto_spec (n + 1) n [] (by omega)
  rw [natural, htext, hvalue]
  simp [value]

theorem isDigit_of_mem_natural (n : Nat) : ∀ b ∈ natural n, isDigit b = true := by
  obtain ⟨digits, htext, _, hdigits, _⟩ := naturalOnto_spec (n + 1) n [] (by omega)
  rw [natural, htext, List.append_nil]
  exact hdigits

theorem natural_ne_nil (n : Nat) : natural n ≠ [] := by
  obtain ⟨digits, htext, hne, _, _⟩ := naturalOnto_spec (n + 1) n [] (by omega)
  rw [natural, htext, List.append_nil]
  exact hne

end MetricDepot.Ascii
