/-!
# Scanners — taking TOML off the front of a text

A `Scanner α` takes an `α` off the front of the characters that remain, or fails. Where
two scanners are tried one after the other, the second starts from where the first did.
The classes of characters here are those of the TOML grammar: blanks are spaces and tabs,
a line ends with a line feed that a carriage return may precede, and no other control
character than the tab may stand anywhere.
-/

namespace MetricDepot.Toml

/-- Takes a value off the front of the remaining characters. -/
abbrev Scanner (α : Type) := StateT (List Char) Option α

variable {α : Type}

-- ── Named characters ────────────────────────────────────────────────────────

/-- The double quote. -/
abbrev quote : Char := Char.ofNat 0x22
/-- The single quote. -/
abbrev apostrophe : Char := Char.ofNat 0x27
/-- The backslash. -/
abbrev backslash : Char := Char.ofNat 0x5C
/-- The line feed. -/
abbrev lineFeed : Char := Char.ofNat 0x0A
/-- The carriage return. -/
abbrev carriageReturn : Char := Char.ofNat 0x0D
/-- The horizontal tab. -/
abbrev tab : Char := Char.ofNat 0x09
/-- The mark that may stand in front of a document. -/
abbrev byteOrderMark : Char := Char.ofNat 0xFEFF
/-- The opening brace. -/
abbrev openBrace : Char := Char.ofNat 0x7B
/-- The closing brace. -/
abbrev closeBrace : Char := Char.ofNat 0x7D

-- ── Classes ─────────────────────────────────────────────────────────────────

/-- Whether a character is a blank inside a line. -/
def isBlank (c : Char) : Bool := c == ' ' || c == tab

/-- Whether a character may stand in a comment or, unless the string ends or escapes with
    it, in a string. -/
def isPlain (c : Char) : Bool := c == tab || (0x20 ≤ c.toNat && c.toNat ≠ 0x7F)

/-- The value of a hexadecimal digit of either case. -/
def hexValue? (c : Char) : Option Nat :=
  if c.isDigit then some (c.toNat - 0x30)
  else if 0x41 ≤ c.toNat && c.toNat ≤ 0x46 then some (c.toNat - 0x37)
  else if 0x61 ≤ c.toNat && c.toNat ≤ 0x66 then some (c.toNat - 0x57)
  else none

-- ── Single steps ────────────────────────────────────────────────────────────

/-- Takes one character of a class. -/
def satisfy (p : Char → Bool) : Scanner Char := fun
  | c :: rest => if p c then some (c, rest) else none
  | [] => none

/-- Takes one particular character. -/
def char (c : Char) : Scanner Unit := discard (satisfy (· == c))

/-- Takes a particular word. -/
def word (text : String) : Scanner Unit := fun s => (text.toList.isPrefixOf? s).map ((), ·)

/-- Takes all characters of a class that stand in front, which may be none. -/
def allOf (p : Char → Bool) : Scanner (List Char) := fun s => some (s.takeWhile p, s.dropWhile p)

/-- Whether a character comes next. -/
def comesNext (c : Char) : Scanner Bool := fun s => some (s.head? == some c, s)

/-- Whether nothing remains. -/
def atEnd : Scanner Bool := fun s => some (s.isEmpty, s)

-- ── Repetition ──────────────────────────────────────────────────────────────

/-- Takes items for as long as that succeeds. The fuel bounds their number. -/
def itemsFor (item : Scanner α) : (fuel : Nat) → Scanner (List α)
  | 0 => pure []
  | fuel + 1 => fun s =>
      match item s with
      | none => some ([], s)
      | some (x, rest) => (itemsFor item fuel rest).map fun (xs, after) => (x :: xs, after)

/-- Takes items for as long as that succeeds. No item is empty. -/
def many (item : Scanner α) : Scanner (List α) := fun s => itemsFor item s.length s

/-- Takes exactly some number of items. -/
def exactly (item : Scanner α) : Nat → Scanner (List α)
  | 0 => pure []
  | n + 1 => do return (← item) :: (← exactly item n)

/-- Takes items with a separator between them, at least one. -/
def separated (item : Scanner α) (separator : Char) : Scanner (List α) := do
  let first ← item
  let rest ← many do char separator; item
  return first :: rest

/-- Takes an item if that succeeds. -/
def optional (item : Scanner α) : Scanner (Option α) := some <$> item <|> pure none

-- ── Blanks and lines ────────────────────────────────────────────────────────

/-- Passes blanks inside a line. -/
def blanks : Scanner Unit := discard (allOf isBlank)

/-- Passes the end of a line. -/
def newline : Scanner Unit := char lineFeed <|> do char carriageReturn; char lineFeed

/-- Passes a comment up to the end of its line. -/
def comment : Scanner Unit := do
  char '#'
  discard (allOf isPlain)

/-- Passes the end of a line or finds the end of the document. -/
def lineEnd : Scanner Unit := do
  if ← atEnd then pure () else newline

/-- Passes what may stand behind an expression on its line. -/
def lineRest : Scanner Unit := do
  blanks
  discard (optional comment)
  lineEnd

/-- Passes blanks, ends of lines, and comments with the ends of their lines. -/
def spacing : Scanner Unit :=
  discard <| many <|
    discard (satisfy isBlank) <|> newline <|> do comment; newline

end MetricDepot.Toml
