/-!
# Bytes — UTF-8 text and little-endian words

A byte string is a list of bytes. Two codings are laid over it here: text as UTF-8, where
`toText?` refuses what is no UTF-8, and natural numbers as words of a fixed width, least
significant byte first. `toText?_ofText` and `ofWord_word` say that each coding can be
read back.
-/

namespace MetricDepot

/-- A byte string. -/
abbrev Bytes := List UInt8

namespace Bytes

-- ── Text ────────────────────────────────────────────────────────────────────

/-- The UTF-8 bytes of a text. -/
def ofText (text : String) : Bytes := text.toByteArray.data.toList

/-- The text whose UTF-8 bytes these are, if they are UTF-8. -/
def toText? (bytes : Bytes) : Option String := String.fromUTF8? ⟨bytes.toArray⟩

@[simp] theorem toText?_ofText (text : String) : toText? (ofText text) = some text := by
  simp [toText?, ofText, String.fromUTF8?, text.isValidUTF8, String.fromUTF8]

-- ── Words ───────────────────────────────────────────────────────────────────

/-- The `width` low bytes of a number, least significant first. -/
def word : (width : Nat) → Nat → Bytes
  | 0, _ => []
  | width + 1, n => UInt8.ofNat (n % 256) :: word width (n / 256)

/-- The number whose bytes these are, least significant first. -/
def ofWord : Bytes → Nat
  | [] => 0
  | b :: rest => b.toNat + 256 * ofWord rest

@[simp] theorem length_word (width n : Nat) : (word width n).length = width := by
  induction width generalizing n with
  | zero => rfl
  | succ width ih => simp [word, ih]

theorem ofWord_word (width n : Nat) : ofWord (word width n) = n % Nat.pow 256 width := by
  induction width generalizing n with
  | zero => simp [word, ofWord, Nat.mod_one]
  | succ width ih =>
    have low : (UInt8.ofNat (n % 256)).toNat = n % 256 := by simp
    have hpow : Nat.pow 256 (width + 1) = 256 * Nat.pow 256 width := Nat.pow_succ'
    rw [word, ofWord, ih, low, hpow, Nat.mod_mul]

theorem ofWord_lt (bytes : Bytes) : ofWord bytes < Nat.pow 256 bytes.length := by
  induction bytes with
  | nil => simp [ofWord]
  | cons b rest ih =>
    have hb : b.toNat < 256 := b.toNat_lt
    have hpow : Nat.pow 256 (rest.length + 1) = 256 * Nat.pow 256 rest.length := Nat.pow_succ'
    rw [ofWord, List.length_cons, hpow]
    omega

theorem word_ofWord (bytes : Bytes) : word bytes.length (ofWord bytes) = bytes := by
  induction bytes with
  | nil => rfl
  | cons b rest ih =>
    have hb : b.toNat < 256 := b.toNat_lt
    have hmod : (b.toNat + 256 * ofWord rest) % 256 = b.toNat := by omega
    have hdiv : (b.toNat + 256 * ofWord rest) / 256 = ofWord rest := by omega
    rw [List.length_cons, word, ofWord, hmod, hdiv, ih]
    simp

/-- Only the low bytes of a number matter to its word. -/
theorem word_mod (width n : Nat) : word width (n % Nat.pow 256 width) = word width n := by
  have h := word_ofWord (word width n)
  rw [length_word, ofWord_word] at h
  exact h

end Bytes

end MetricDepot
