import MetricDepot.Binary64.Shortest
/-!
# Writing — JSON text without blanks

Objects keep the order of their members. Strings escape the quote, the backslash and the
control characters, the latter by a letter where there is one and else by four lower-case
digits; everything else stands for itself. A finite sample is written with the fewest
digits that denote it, positionally from `0.00001` to below `1e+16` with at least one
decimal, and otherwise with one digit before the point and a signed exponent. The special
values have no JSON number and are written as strings.
-/

namespace MetricDepot.Json

-- ── Strings ─────────────────────────────────────────────────────────────────

/-- How one byte of a text is written inside a string. -/
def escapeByte (b : UInt8) : Bytes :=
  if b = Ascii.quote then [Ascii.backslash, Ascii.quote]
  else if b = Ascii.backslash then [Ascii.backslash, Ascii.backslash]
  else if b = 0x08 then [Ascii.backslash, Ascii.letterB]
  else if b = 0x0C then [Ascii.backslash, Ascii.letterF]
  else if b = Ascii.lineFeed then [Ascii.backslash, Ascii.letterN]
  else if b = Ascii.carriageReturn then [Ascii.backslash, Ascii.letterR]
  else if b = Ascii.tab then [Ascii.backslash, Ascii.letterT]
  else if b < 0x20 then
    [Ascii.backslash, Ascii.letterU, Ascii.zero, Ascii.zero,
      Ascii.hexDigit (b.toNat / 16), Ascii.hexDigit (b.toNat % 16)]
  else [b]

/-- A text as a string. -/
def quoted (text : String) : Bytes :=
  Ascii.quote :: ((Bytes.ofText text).flatMap escapeByte ++ [Ascii.quote])

-- ── Containers ──────────────────────────────────────────────────────────────

/-- Items with commas between them. -/
def commaSeparated : List Bytes → Bytes
  | [] => []
  | [item] => item
  | item :: rest => item ++ Ascii.comma :: commaSeparated rest

/-- The items as an array. -/
def arrayText (items : List Bytes) : Bytes :=
  Ascii.openBracket :: (commaSeparated items ++ [Ascii.closeBracket])

/-- A key and its value as a member. -/
def memberText (key : String) (value : Bytes) : Bytes := quoted key ++ Ascii.colon :: value

/-- The members as an object. -/
def objectText (members : List (String × Bytes)) : Bytes :=
  Ascii.openBrace :: (commaSeparated (members.map fun m => memberText m.1 m.2) ++ [Ascii.closeBrace])

-- ── Samples ─────────────────────────────────────────────────────────────────

/-- Digits laid out around the point, which stands `point` places behind their front. -/
def positional (digits : Bytes) (point : Int) : Bytes :=
  if point ≤ 0 then
    Ascii.zero :: Ascii.point :: (List.replicate (-point).toNat Ascii.zero ++ digits)
  else if digits.length ≤ point then
    digits ++ List.replicate (point - digits.length).toNat Ascii.zero ++ [Ascii.point, Ascii.zero]
  else digits.take point.toNat ++ Ascii.point :: digits.drop point.toNat

/-- Digits laid out with one before the point and the exponent of that one digit. -/
def scientific (digits : Bytes) (exponent : Int) : Bytes :=
  digits.take 1 ++ (if digits.length ≤ 1 then [] else Ascii.point :: digits.drop 1) ++
    Ascii.letterE :: (if exponent < 0 then Ascii.minus else Ascii.plus) ::
      Ascii.natural exponent.natAbs

/-- The text of a positive decimal. -/
def decimalText (d : Decimal) : Bytes :=
  let exponent := d.top - 1
  if -5 ≤ exponent ∧ exponent < 16 then positional (Ascii.natural d.units) d.top
  else scientific (Ascii.natural d.units) exponent

/-- The text of a finite number. -/
def finiteText (x : Binary64) : Bytes :=
  let size :=
    if x.isZero then [Ascii.zero, Ascii.point, Ascii.zero] else decimalText x.shortest
  if x.isNegative then Ascii.minus :: size else size

/-- The name of a special value. -/
def specialName (x : Binary64) : String :=
  if x.isNaN then "NaN" else if x.isNegative then "-Inf" else "+Inf"

/-- A sample: a number if it is finite, and else a string that names it. -/
def sampleText (x : Binary64) : Bytes :=
  if x.isFinite then finiteText x else quoted (specialName x)

end MetricDepot.Json
