import MetricDepot.Toml.Item
import MetricDepot.Toml.Scalar
import MetricDepot.Toml.Text
/-!
# Documents — reading TOML

A document is a sequence of lines: blank, with a comment, with a header, or with a key and
its value. A header names the table to which the keys below it belong. Arrays may span
lines and end in a comma; tables between braces may not.

Values nest at most 79 arrays and tables between braces, and a dotted key has at most 79
parts.
-/

namespace MetricDepot.Toml

/-- How many arrays and tables between braces may nest, and how many parts a key may have. -/
def nestingLimit : Nat := 79

-- ── Keys ────────────────────────────────────────────────────────────────────

/-- Whether a character may stand in a key without quotes. -/
def isBare (c : Char) : Bool := c.isAlpha || c.isDigit || c == '_' || c == '-'

/-- A key without quotes. -/
def bareKey : Scanner String := do
  let first ← satisfy isBare
  return String.ofList (first :: (← allOf isBare))

/-- One part of a key. -/
def keyPart : Scanner String := basicString <|> literalString <|> bareKey

/-- The parts of a key: those before the last, and the last. -/
def key : Scanner (List String × String) := do
  let parts ← separated (do blanks; let part ← keyPart; blanks; return part) '.'
  match parts.getLast? with
  | some last => if parts.length ≤ nestingLimit then return (parts.dropLast, last) else failure
  | none => failure

-- ── Values ──────────────────────────────────────────────────────────────────

/-- The items of an array, up to its closing bracket. -/
def arrayItems (item : Scanner Item) : Scanner (List Item) := do
  let items ← optional do
    let items ← separated (do spacing; let x ← item; spacing; return x) ','
    discard (optional (char ','))
    return items
  spacing
  char ']'
  return items.getD []

/-- A key and its value. -/
def pair (item : Scanner Item) : Scanner ((List String × String) × Item) := do
  let k ← key
  char '='
  blanks
  let x ← item
  return (k, x)

/-- The members of a table between braces, up to its closing brace. -/
def tableMembers (item : Scanner Item) : Scanner Members := do
  let pairs ← optional (separated (do let p ← pair item; blanks; return p) ',')
  blanks
  char closeBrace
  fun s => do
    let members ← (pairs.getD []).foldlM
      (fun members ((path, last), x) => Members.addDotted path last x .braces members) []
    return (members, s)

/-- A value that nests at most `room` arrays and tables between braces. -/
def value : (room : Nat) → Scanner Item
  | 0 => .text <$> anyString <|> do scalar; return .scalar
  | room + 1 =>
      .text <$> anyString
        <|> (do char '['; .array <$> arrayItems (value room))
        <|> (do char openBrace; .table .braces <$> tableMembers (value room))
        <|> do scalar; return .scalar

-- ── Lines ───────────────────────────────────────────────────────────────────

/-- A document up to some line: its members, and the parts of the last header. -/
structure Progress where
  root : Members
  current : List String

namespace Progress

/-- The document without lines. -/
def start : Progress := ⟨[], []⟩

/-- Adds a key and its value below the last header. -/
def addPair (p : Progress) (path : List String) (last : String) (x : Item) : Option Progress := do
  let root ← Members.alter false (Members.addDotted path last x) p.current .header p.root
  return { p with root }

/-- Begins the table of a header. -/
def openTable (p : Progress) (path : List String) (last : String) : Option Progress := do
  return ⟨← Members.openTable path last p.root, path ++ [last]⟩

/-- Begins one more table of an array of tables. -/
def openElement (p : Progress) (path : List String) (last : String) : Option Progress := do
  return ⟨← Members.openElement path last p.root, path ++ [last]⟩

end Progress

/-- A step that depends on no characters. -/
def lifted {α : Type} (x : Option α) : Scanner α := fun s => x.map (·, s)

/-- A header, single or doubled. -/
def header (p : Progress) : Scanner Progress := do
  char '['
  if ← comesNext '[' then
    char '['
    let (path, last) ← key
    char ']'
    char ']'
    lineRest
    lifted (p.openElement path last)
  else
    let (path, last) ← key
    char ']'
    lineRest
    lifted (p.openTable path last)

/-- A key with its value. -/
def assignment (p : Progress) : Scanner Progress := do
  let ((path, last), x) ← pair (value nestingLimit)
  lineRest
  lifted (p.addPair path last x)

/-- A line that says nothing. -/
def emptyLine : Scanner Unit := newline <|> do comment; lineEnd

/-- One line. -/
def line (p : Progress) : Scanner Progress := do
  blanks
  if ← atEnd then return p
  else if ← comesNext '[' then header p
  else (do emptyLine; return p) <|> assignment p

/-- The lines up to the end. The fuel bounds their number. -/
def lines : (fuel : Nat) → Progress → Scanner Progress
  | 0, p => return p
  | fuel + 1, p => do
      if ← atEnd then return p
      else lines fuel (← line p)

/-- The members of the table that a document is. -/
def document? (text : List Char) : Option Members :=
  let lined := if text.head? = some byteOrderMark then text.tail else text
  ((lines (lined.length + 1) .start).run lined).map (·.1.root)

end MetricDepot.Toml
