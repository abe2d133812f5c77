import MetricDepot.Toml.Scanner
/-!
# Text — the four forms of a TOML string

A string is basic, between double quotes and with escapes, or literal, between single
quotes and without; and either form may span lines when its quotes are tripled. A string
over several lines leaves out a line break right behind its opening, counts every line
break as a line feed, and may end in up to two more quotes of its own kind. In the basic
form a backslash at the end of a line takes away all blanks and line breaks behind it.
-/

namespace MetricDepot.Toml

-- ── Escapes ─────────────────────────────────────────────────────────────────

/-- The character of a code point of so many hexadecimal digits. -/
def codePoint (width : Nat) : Scanner Char := do
  let digits ← exactly (satisfy fun c => (hexValue? c).isSome) width
  let code := digits.foldl (fun n c => 16 * n + (hexValue? c).getD 0) 0
  if code.isValidChar then return Char.ofNat code else failure

/-- The character that a letter behind a backslash stands for. -/
def letterEscape? (c : Char) : Option Char :=
  if c = 'b' then some (Char.ofNat 0x08)
  else if c = 't' then some tab
  else if c = 'n' then some lineFeed
  else if c = 'f' then some (Char.ofNat 0x0C)
  else if c = 'r' then some carriageReturn
  else if c = quote ∨ c = backslash then some c
  else none

/-- The character of an escape. -/
def escape : Scanner Char := do
  char backslash
  let c ← satisfy fun _ => true
  if c = 'u' then codePoint 4
  else if c = 'U' then codePoint 8
  else (letterEscape? c).elim failure pure

-- ── Strings on one line ─────────────────────────────────────────────────────

/-- Whether a character stands for itself in a basic string. -/
def isBasic (c : Char) : Bool := isPlain c && c != quote && c != backslash

/-- Whether a character stands for itself in a literal string. -/
def isLiteral (c : Char) : Bool := isPlain c && c != apostrophe

/-- A basic string on one line. -/
def basicString : Scanner String := do
  char quote
  let cs ← many (satisfy isBasic <|> escape)
  char quote
  return String.ofList cs

/-- A literal string on one line. -/
def literalString : Scanner String := do
  char apostrophe
  let cs ← allOf isLiteral
  char apostrophe
  return String.ofList cs

-- ── Strings over several lines ──────────────────────────────────────────────

/-- The number of marks in front. -/
def runLength (mark : Char) (s : List Char) : Nat := (s.takeWhile (· == mark)).length

/-- One or two marks that belong to the text, as they are too few to end it. -/
def fewMarks (mark : Char) : Scanner (List Char) := fun s =>
  let run := runLength mark s
  if run = 1 ∨ run = 2 then some (List.replicate run mark, s.drop run) else none

/-- The three marks that end a text, behind up to two that belong to it. -/
def closingMarks (mark : Char) : Scanner (List Char) := fun s =>
  let run := min 5 (runLength mark s)
  if 3 ≤ run then some (List.replicate (run - 3) mark, s.drop run) else none

/-- A line break in a text. -/
def lineBreak : Scanner (List Char) := do
  newline
  return [lineFeed]

/-- A backslash at the end of a line, with all blanks and line breaks behind it. -/
def continuation : Scanner (List Char) := do
  char backslash
  blanks
  newline
  discard <| many (discard (satisfy isBlank) <|> newline)
  return []

/-- A text over several lines, made of the given pieces. -/
def longString (mark : Char) (piece : Scanner (List Char)) : Scanner String := do
  discard (exactly (char mark) 3)
  discard (optional newline)
  let pieces ← many piece
  let last ← closingMarks mark
  return String.ofList (pieces.flatten ++ last)

/-- A basic string over several lines. -/
def longBasicString : Scanner String :=
  longString quote <|
    (do return [← satisfy isBasic]) <|> continuation <|> (do return [← escape]) <|> lineBreak
      <|> fewMarks quote

/-- A literal string over several lines. -/
def longLiteralString : Scanner String :=
  longString apostrophe <|
    (do return [← satisfy isLiteral]) <|> lineBreak <|> fewMarks apostrophe

/-- A string of any form. -/
def anyString : Scanner String :=
  longBasicString <|> basicString <|> longLiteralString <|> literalString

end MetricDepot.Toml
