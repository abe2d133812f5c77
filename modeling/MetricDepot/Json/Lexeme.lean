import MetricDepot.Binary64.Nearest
/-!
# Lexemes — blanks, strings, numbers and words of JSON

The leaves of the JSON grammar, each as a function from the bytes that remain to what was
read and the bytes after it. A string is read by a small automaton: a `Spot` says what the
next byte may be, and each byte either closes the string or is traded for the bytes that
it stands for. Strings that are passed over are held to a looser grammar: their escapes
must be complete, but need not make sense as characters.
-/

namespace MetricDepot.Json

-- ── Blanks ──────────────────────────────────────────────────────────────────

/-- Whether a byte may stand between the tokens of a document. -/
def isBlank (b : UInt8) : Bool :=
  b == Ascii.space || b == Ascii.lineFeed || b == Ascii.carriageReturn || b == Ascii.tab

/-- What remains after the blanks in front. -/
def skipBlank (s : Bytes) : Bytes := s.dropWhile isBlank

-- ── Strings ─────────────────────────────────────────────────────────────────

/-- What a string reader waits for: a byte of the text, the byte after a backslash, the
    remaining digits of a 16-bit unit (after a high surrogate, if one is pending), or the
    backslash or the letter that must follow a high surrogate. -/
inductive Spot where
  | plain
  | escape
  | unit (high : Option Nat) (left value : Nat)
  | lowEscape (high : Nat)
  | lowMark (high : Nat)

/-- What one byte of a string does. -/
inductive Move where
  | close
  | go (out : Bytes) (next : Spot)

/-- The UTF-8 bytes of a code point. -/
def utf8 (code : Nat) : Bytes := String.utf8EncodeChar (Char.ofNat code)

def isHighSurrogate (unit : Nat) : Bool := 0xD800 ≤ unit && unit < 0xDC00

def isLowSurrogate (unit : Nat) : Bool := 0xDC00 ≤ unit && unit < 0xE000

/-- What a complete 16-bit unit stands for. Surrogates must come as a high one and a low one. -/
def endUnit : (high : Option Nat) → (unit : Nat) → Option Move
  | none, unit =>
      if isLowSurrogate unit then none
      else if isHighSurrogate unit then some (.go [] (.lowEscape unit))
      else some (.go (utf8 unit) .plain)
  | some high, unit =>
      if isLowSurrogate unit then
        some (.go (utf8 (0x10000 + (high - 0xD800) * 0x400 + (unit - 0xDC00))) .plain)
      else none

/-- The byte that a letter after a backslash stands for. -/
def escaped? (b : UInt8) : Option UInt8 :=
  if b = Ascii.quote ∨ b = Ascii.backslash ∨ b = Ascii.slash then some b
  else if b = Ascii.letterB then some 0x08
  else if b = Ascii.letterF then some 0x0C
  else if b = Ascii.letterN then some Ascii.lineFeed
  else if b = Ascii.letterR then some Ascii.carriageReturn
  else if b = Ascii.letterT then some Ascii.tab
  else none

/-- One step of the automaton; none where the byte may not stand. -/
def Spot.move : Spot → UInt8 → Option Move
  | .plain, b =>
      if b = Ascii.quote then some .close
      else if b = Ascii.backslash then some (.go [] .escape)
      else if b < 0x20 then none
      else some (.go [b] .plain)
  | .escape, b =>
      if b = Ascii.letterU then some (.go [] (.unit none 4 0))
      else (escaped? b).map fun c => .go [c] .plain
  | .unit high left value, b =>
      (Ascii.hexValue? b).bind fun d =>
        if left ≤ 1 then endUnit high (16 * value + d)
        else some (.go [] (.unit high (left - 1) (16 * value + d)))
  | .lowEscape high, b => if b = Ascii.backslash then some (.go [] (.lowMark high)) else none
  | .lowMark high, b => if b = Ascii.letterU then some (.go [] (.unit (some high) 4 0)) else none

/-- The bytes of a string up to its closing quote, and what remains after it. -/
def stringTail : Spot → Bytes → Option (Bytes × Bytes)
  | _, [] => none
  | spot, b :: rest =>
      match spot.move b with
      | none => none
      | some .close => some ([], rest)
      | some (.go out next) => (stringTail next rest).map fun (text, after) => (out ++ text, after)

/-- What remains after a string that nobody reads. `pending` counts the hexadecimal digits
    still due, and `afterBackslash` says that an escape has begun. -/
def looseStringTail : (afterBackslash : Bool) → (pending : Nat) → Bytes → Option Bytes
  | _, _, [] => none
  | false, 0, b :: rest =>
      if b = Ascii.quote then some rest
      else if b = Ascii.backslash then looseStringTail true 0 rest
      else if b < 0x20 then none
      else looseStringTail false 0 rest
  | true, pending, b :: rest =>
      if b = Ascii.letterU then looseStringTail false 4 rest
      else if (escaped? b).isSome then looseStringTail false pending rest
      else none
  | false, pending + 1, b :: rest =>
      if (Ascii.hexValue? b).isSome then looseStringTail false pending rest else none

-- ── Numbers ─────────────────────────────────────────────────────────────────

/-- A number as it was written: its sign, the exact decimal, and whether it had neither
    fraction nor exponent. -/
structure Numeral where
  negative : Bool
  decimal : Decimal
  integral : Bool
deriving DecidableEq, Repr

namespace Numeral

/-- The number as a count below `bound`: whole, and written without a sign. -/
def toCount? (n : Numeral) (bound : Nat) : Option Nat :=
  if n.integral && !n.negative && n.decimal.units < bound then some n.decimal.units else none

/-- The number as a signed word. A negative zero is no whole number. -/
def toSigned? (n : Numeral) : Option Int64 :=
  let u := n.decimal.units
  if !n.integral then none
  else if n.negative then
    if 0 < u ∧ u ≤ 0x8000000000000000 then some (Int64.ofInt (-(u : Int))) else none
  else if u < 0x8000000000000000 then some (Int64.ofInt u)
  else none

/-- The number as a sample, unless it is too great for a finite one. Of very long numbers
    only the first digits are told apart. -/
def toBinary64? (n : Numeral) : Option Binary64 := Binary64.nearest? n.negative n.decimal.clipped

end Numeral

/-- The digits in front, and what remains after them. -/
def digitRun (s : Bytes) : Bytes × Bytes := (s.takeWhile Ascii.isDigit, s.dropWhile Ascii.isDigit)

/-- The fraction of a number, if a point begins one; none where no digit follows the point. -/
def fraction? (s : Bytes) : Option (Bytes × Bytes) :=
  match s with
  | b :: rest =>
      if b = Ascii.point then
        let (digits, after) := digitRun rest
        if digits.isEmpty then none else some (digits, after)
      else some ([], s)
  | [] => some ([], [])

/-- The sign of an exponent and what remains after it. -/
def exponentSign (s : Bytes) : Bool × Bytes :=
  match s with
  | b :: rest =>
      if b = Ascii.minus then (true, rest)
      else if b = Ascii.plus then (false, rest)
      else (false, s)
  | [] => (false, [])

/-- The exponent of a number, if a letter begins one; none where no digit follows. -/
def exponent? (s : Bytes) : Option (Option Int × Bytes) :=
  match s with
  | b :: rest =>
      if b = Ascii.letterE ∨ b = Ascii.capitalE then
        let (negative, unsigned) := exponentSign rest
        let (digits, after) := digitRun unsigned
        if digits.isEmpty then none
        else
          let size : Int := Ascii.value digits
          some (some (if negative then -size else size), after)
      else some (none, s)
  | [] => some (none, [])

/-- The digits of a fraction up to the last that is not zero. -/
def trimFraction (digits : Bytes) : Bytes := (digits.reverse.dropWhile (· == Ascii.zero)).reverse

/-- A number and what remains after it. A whole part of several digits begins with no zero.
    Zeros at the end of a fraction are no digits of the decimal, those at the end of a whole
    part are. -/
def numeral? (s : Bytes) : Option (Numeral × Bytes) := do
  let (negative, unsigned) := match s with
    | b :: rest => if b = Ascii.minus then (true, rest) else (false, s)
    | [] => (false, [])
  let (whole, afterWhole) := digitRun unsigned
  if whole.isEmpty || (whole.length != 1 && whole.head? == some Ascii.zero) then none
  let (fraction, afterFraction) ← fraction? afterWhole
  let (exponent, after) ← exponent? afterFraction
  let trimmed := trimFraction fraction
  let decimal : Decimal := ⟨Ascii.value (whole ++ trimmed), exponent.getD 0 - trimmed.length⟩
  return (⟨negative, decimal, fraction.isEmpty && exponent.isNone⟩, after)

end MetricDepot.Json
