import MetricDepot.Toml.Scanner
/-!
# Writer — the form in which a text is written as a TOML string

A text is written in the plainest form that can hold it: between double quotes if it
needs no escape; else between single quotes; else over several lines between double
quotes, still without escapes; else over several lines between single quotes. Only what
none of these can hold is written with escapes, over several lines if it has line breaks.

Tabs count as harmless when the form is chosen, but are escaped wherever escapes are.
-/

namespace MetricDepot.Toml

-- ── What a text holds ───────────────────────────────────────────────────────

/-- Whether a character is a control character other than the tab and the line feed. -/
def isForeign (c : Char) : Bool :=
  (c.toNat < 0x20 && c != tab && c != lineFeed) || c.toNat == 0x7F

/-- Whether a text holds so many marks in a row. -/
def hasRun (mark : Char) : (length : Nat) → List Char → Bool
  | _, [] => false
  | length, c :: rest => (List.replicate length mark).isPrefixOf (c :: rest) || hasRun mark length rest

-- ── Escapes ─────────────────────────────────────────────────────────────────

/-- The upper-case digit of a number below sixteen. -/
def upperDigit (d : Nat) : Char := Char.ofNat (if d < 10 then 0x30 + d else 0x37 + d)

/-- The code point of a control character, as an escape. -/
def codeEscape (c : Char) : List Char :=
  [backslash, 'u', '0', '0', upperDigit (c.toNat / 16), upperDigit (c.toNat % 16)]

/-- How a character other than a double quote is written where escapes may stand. Line feeds
    stand for themselves over several lines. -/
def escaped (long : Bool) (c : Char) : List Char :=
  if c = backslash then [backslash, backslash]
  else if c = tab then [backslash, 't']
  else if c = lineFeed then if long then [c] else [backslash, 'n']
  else if c = carriageReturn then [backslash, 'r']
  else if c.toNat = 0x08 then [backslash, 'b']
  else if c.toNat = 0x0C then [backslash, 'f']
  else if c.toNat < 0x20 ∨ c.toNat = 0x7F then codeEscape c
  else [c]

/-- A text with escapes, in which at most `allowed` double quotes stand in a row without
    one. `run` counts those that stand in front. -/
def escapedText (long : Bool) (allowed : Nat) : (run : Nat) → List Char → List Char
  | _, [] => []
  | run, c :: rest =>
      if c = quote then
        if run < allowed then quote :: escapedText long allowed (run + 1) rest
        else backslash :: quote :: escapedText long allowed 0 rest
      else escaped long c ++ escapedText long allowed 0 rest

-- ── Forms ───────────────────────────────────────────────────────────────────

/-- A text on one line between double quotes. -/
def basicText (cs : List Char) : List Char := quote :: (escapedText false 0 0 cs ++ [quote])

/-- A text on one line between single quotes. -/
def literalText (cs : List Char) : List Char := apostrophe :: (cs ++ [apostrophe])

/-- A text over several lines. What is within begins on a line of its own if there is a line
    break in it. -/
def longText (mark : Char) (cs inside : List Char) : List Char :=
  List.replicate 3 mark ++ (if cs.contains lineFeed then [lineFeed] else []) ++ inside
    ++ List.replicate 3 mark

/-- A text over several lines between double quotes. -/
def longBasicText (cs : List Char) : List Char := longText quote cs (escapedText true 2 0 cs)

/-- A text over several lines between single quotes. -/
def longLiteralText (cs : List Char) : List Char := longText apostrophe cs cs

/-- A text as a string. -/
def stringText (cs : List Char) : List Char :=
  let foreign := cs.any isForeign
  let broken := cs.contains lineFeed
  let slashed := cs.contains backslash
  if !foreign && !slashed && !broken && !cs.contains quote then basicText cs
  else if !foreign && !broken && !cs.contains apostrophe then literalText cs
  else if !foreign && !slashed && !hasRun quote 3 cs then longBasicText cs
  else if !foreign && !hasRun apostrophe 3 cs then longLiteralText cs
  else if broken then longBasicText cs
  else basicText cs

end MetricDepot.Toml
