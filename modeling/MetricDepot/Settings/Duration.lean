import MetricDepot.Text.Blank
/-!
# Durations — lengths of time as they are configured

A duration is a whole number with a unit: `ms`, `s`, `m`, `h`, or none for seconds. White
space around it is passed over, and a plus sign may stand in front. The number must fit 64
bits, and so must the number of seconds that minutes or hours come to.
-/

namespace MetricDepot

/-- A length of time in milliseconds. -/
abbrev Duration := Nat

namespace Duration

/-- The first number that does not fit 64 bits. -/
def wordEnd : Nat := UInt64.size

/-- The number that a run of digits denotes. -/
def number (digits : List Char) : Nat := digits.foldl (fun n c => 10 * n + (c.toNat - 0x30)) 0

/-- A whole number that fits 64 bits: digits, of which there is one at least, behind a plus
    sign or none. -/
def count? (cs : List Char) : Option Nat :=
  let digits := if cs.head? = some '+' then cs.tail else cs
  if digits ≠ [] ∧ digits.all Char.isDigit ∧ number digits < wordEnd then some (number digits)
  else none

/-- The count in front of a unit of so many seconds, as milliseconds. -/
def inSeconds (unit : Nat) (cs : List Char) : Option Duration := do
  let n ← count? cs
  if n * unit < wordEnd then return n * unit * 1000 else none

/-- What stands in front of an ending, if the text has it. -/
def beforeEnding (ending cs : List Char) : Option (List Char) :=
  if ending.isSuffixOf cs then some (cs.take (cs.length - ending.length)) else none

/-- The duration that a text denotes. -/
def parse? (text : String) : Option Duration :=
  let cs := Text.trim text.toList
  match beforeEnding ['m', 's'] cs with
  | some front => count? front
  | none =>
    match beforeEnding ['s'] cs with
    | some front => inSeconds 1 front
    | none =>
      match beforeEnding ['m'] cs with
      | some front => inSeconds 60 front
      | none =>
        match beforeEnding ['h'] cs with
        | some front => inSeconds 3600 front
        | none => inSeconds 1 cs

end Duration

end MetricDepot
