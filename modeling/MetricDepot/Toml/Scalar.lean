import MetricDepot.Binary64.Nearest
import MetricDepot.Toml.Scanner
/-!
# Scalars — numbers, dates and truth values

The scalars of TOML that are no strings. Nobody reads their values, but a document is
refused when one of them is malformed or out of range, so they are judged in full: an
integer must fit a signed 64-bit word, a positive fractional number must not exceed the
finite ones, and a date must exist.
-/

namespace MetricDepot.Toml

-- ── Digits ──────────────────────────────────────────────────────────────────

/-- Digits of a class, where an underscore may stand between two of them. -/
def digitGroup (p : Char → Bool) : Scanner (List Char) := do
  let first ← satisfy p
  let rest ← many (satisfy p <|> do char '_'; satisfy p)
  return first :: rest

/-- The number that digits denote to a base. -/
def valueOf (base : Nat) (digits : List Char) : Nat :=
  digits.foldl (fun n c => base * n + (hexValue? c).getD 0) 0

/-- Whether a minus sign stands in front; passes a sign of either kind. -/
def sign : Scanner Bool :=
  (do char '-'; return true) <|> (do char '+'; return false) <|> pure false

/-- The digits of a whole number, which begins with no zero unless it is one. -/
def wholeDigits : Scanner (List Char) := do
  if ← comesNext '0' then
    char '0'
    return ['0']
  else digitGroup Char.isDigit

-- ── Numbers ─────────────────────────────────────────────────────────────────

/-- A whole number to another base than ten. -/
def basedInteger (mark : String) (base : Nat) (p : Char → Bool) : Scanner Unit := do
  word mark
  let digits ← digitGroup p
  if valueOf base digits < 0x8000000000000000 then pure () else failure

/-- A whole number to base ten. -/
def decimalInteger : Scanner Unit := do
  let negative ← sign
  let size := valueOf 10 (← wholeDigits)
  if size < 0x8000000000000000 ∨ (negative ∧ size = 0x8000000000000000) then pure () else failure

/-- A whole number. -/
def integer : Scanner Unit :=
  basedInteger "0x" 16 (fun c => (hexValue? c).isSome)
    <|> basedInteger "0o" 8 (fun c => 0x30 ≤ c.toNat && c.toNat ≤ 0x37)
    <|> basedInteger "0b" 2 (fun c => c == '0' || c == '1')
    <|> decimalInteger

/-- The exponent of a fractional number. -/
def exponent : Scanner Int := do
  discard (satisfy fun c => c == 'e' || c == 'E')
  let negative ← sign
  let size : Int := valueOf 10 (← digitGroup Char.isDigit)
  return if negative then -size else size

/-- The digits behind the point of a fractional number. -/
def fraction : Scanner (List Char) := do
  char '.'
  digitGroup Char.isDigit

/-- A fractional number: whole digits with a fraction, an exponent, or both. -/
def fractional : Scanner Unit := do
  let negative ← sign
  let whole ← wholeDigits
  let (digits, power) ←
    (do return ([], ← exponent)) <|> do return (← fraction, (← optional exponent).getD 0)
  let decimal : Decimal := ⟨valueOf 10 (whole ++ digits), power - digits.length⟩
  if negative || (Binary64.nearest? false decimal).isSome then pure () else failure

/-- A number that is infinite or none. -/
def specialNumber : Scanner Unit := do
  discard sign
  word "inf" <|> word "nan"

-- ── Dates and times ─────────────────────────────────────────────────────────

/-- A number of so many digits. -/
def fixedDigits (width : Nat) : Scanner Nat := valueOf 10 <$> exactly (satisfy Char.isDigit) width

/-- A number of two digits in a range. -/
def twoDigits (low high : Nat) : Scanner Nat := do
  let n ← fixedDigits 2
  if low ≤ n ∧ n ≤ high then return n else failure

/-- The number of days of a month. -/
def daysIn (year month : Nat) : Nat :=
  if month = 2 then if (year % 4 = 0 ∧ year % 100 ≠ 0) ∨ year % 400 = 0 then 29 else 28
  else if month = 4 ∨ month = 6 ∨ month = 9 ∨ month = 11 then 30
  else 31

/-- A date. -/
def date : Scanner Unit := do
  let year ← fixedDigits 4
  char '-'
  let month ← twoDigits 1 12
  char '-'
  discard (twoDigits 1 (daysIn year month))

/-- A time of day. -/
def time : Scanner Unit := do
  discard (twoDigits 0 23)
  char ':'
  discard (twoDigits 0 59)
  char ':'
  discard (twoDigits 0 60)
  discard (optional do char '.'; discard (satisfy Char.isDigit); discard (allOf Char.isDigit))

/-- How far a time is from universal time. -/
def offset : Scanner Unit :=
  discard (satisfy fun c => c == 'Z' || c == 'z') <|> do
    discard (satisfy fun c => c == '+' || c == '-')
    discard (twoDigits 0 23)
    char ':'
    discard (twoDigits 0 59)

/-- A date, a time, or both, in which case an offset may follow. -/
def dateTime : Scanner Unit :=
  (do
    date
    discard (optional do
      discard (satisfy fun c => c == 'T' || c == 't' || c == ' ')
      time
      discard (optional offset)))
  <|> time

-- ── Scalars ─────────────────────────────────────────────────────────────────

/-- A scalar that is no string. -/
def scalar : Scanner Unit :=
  dateTime <|> fractional <|> specialNumber <|> integer <|> word "true" <|> word "false"

end MetricDepot.Toml
