import MetricDepot.Json.Reader
/-!
# Trees — JSON values read whole before they are judged

A value whose shape depends on one of its own members is read as a `Tree` first. A tree
is judged more strictly than what is passed over: its strings must be texts, its numbers
finite, and its nesting within the room that the document still has. A document may nest
127 containers.
-/

namespace MetricDepot.Json

/-- A JSON value. Members keep their order, and a repeated key its repetitions. -/
inductive Tree where
  | null
  | truth (value : Bool)
  | number (value : Numeral)
  | text (value : String)
  | array (items : List Tree)
  | object (members : List (String × Tree))

/-- How many containers a document may nest. -/
def nestingLimit : Nat := 127

/-- A number that is finite as a sample. -/
def finiteNumeral : Reader Numeral := do
  let n ← numeral
  if n.toBinary64?.isSome then return n else fail

/-- A tree whose containers are read by `container`. -/
def treeWith (container : Reader Tree) : Reader Tree := do
  let b ← peek
  if b = Ascii.quote then .text <$> string
  else if b = Ascii.openBracket ∨ b = Ascii.openBrace then container
  else if b = Ascii.letterN then do word nullWord; return .null
  else if b = Ascii.letterT then do word trueWord; return .truth true
  else if b = Ascii.letterF then do word falseWord; return .truth false
  else .number <$> finiteNumeral

/-- An array or an object of the given trees. -/
def container (inner : Reader Tree) : Reader Tree := do
  if (← peek) = Ascii.openBracket then .array <$> array inner
  else do
    let reversed ← object string (fun seen key => do return (key, ← inner) :: seen) []
    return .object reversed.reverse

/-- A tree that nests at most `room` containers. -/
def tree : (room : Nat) → Reader Tree
  | 0 => treeWith fail
  | room + 1 => treeWith (container (tree room))

end MetricDepot.Json
