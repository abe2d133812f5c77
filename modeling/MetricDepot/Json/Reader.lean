import MetricDepot.Json.Lexeme
/-!
# Readers — decoding typed values straight from JSON text

A `Reader α` takes an `α` off the front of the bytes that remain, or says why it cannot.
A reader judges the document in the order in which it is written: of two things wrong, the
first decides. Objects are folded member by member, so a value may depend on the keys that
came before it; arrays are read item by item.

What nobody asked for is passed over by `skip`, which holds it to the grammar alone: no
limit on its depth, no judgement on the size of its numbers or the sense of its escapes.
-/

namespace MetricDepot.Json

/-- Why a text could not be decoded: it is no JSON, or not of the shape that is read; or a
    sample was given as a text that names none of the special values. -/
inductive Fault where
  | malformed
  | badSample (text : String)
deriving DecidableEq, Repr

/-- Takes a value off the front of the remaining bytes. -/
abbrev Reader (α : Type) := StateT Bytes (Except Fault) α

variable {α β σ κ : Type}

-- ── Giving up ───────────────────────────────────────────────────────────────

section Faults

variable {m : Type → Type} [Monad m] [MonadExceptOf Fault m]

/-- Gives up: the document is malformed here. -/
def fail : m α := throw Fault.malformed

/-- The value, or a malformed document where there is none. -/
def orFail : Option α → m α
  | some x => pure x
  | none => fail

/-- A field of a record that may be given only once. -/
def once (present : Option α) (read : m α) : m (Option α) :=
  if present.isSome then fail else some <$> read

end Faults

/-- What was judged apart from the document, as a step of its reader. -/
def judged (verdict : Except Fault α) : Reader α := fun s => verdict.map (·, s)

-- ── Single tokens ───────────────────────────────────────────────────────────

/-- A reader of a single lexeme, behind blanks. -/
def lexeme (step : Bytes → Option (α × Bytes)) : Reader α := fun s =>
  match step (skipBlank s) with
  | some r => .ok r
  | none => .error .malformed

/-- The next byte that is no blank. -/
def next : Reader UInt8 := lexeme fun
  | b :: rest => some (b, rest)
  | [] => none

/-- The next byte that is no blank, left in place. -/
def peek : Reader UInt8 := lexeme fun
  | b :: rest => some (b, b :: rest)
  | [] => none

/-- Passes one particular byte. -/
def expect (byte : UInt8) : Reader Unit := do
  if (← next) ≠ byte then fail

/-- Passes one particular byte if it comes next, and says whether it did. -/
def passes (byte : UInt8) : Reader Bool := do
  if (← peek) = byte then
    let _ ← next
    return true
  else return false

/-- Passes the word of a literal. -/
def word (text : Bytes) : Reader Unit := lexeme fun s => (text.isPrefixOf? s).map ((), ·)

/-- A number. -/
def numeral : Reader Numeral := lexeme numeral?

/-- A string. -/
def string : Reader String := do
  expect Ascii.quote
  let text ← lexemeHere
  orFail (Bytes.toText? text)
where
  /-- The bytes of the string behind its opening quote. -/
  lexemeHere : Reader Bytes := fun s =>
    match stringTail .plain s with
    | some r => .ok r
    | none => .error .malformed

/-- Passes a string that nobody reads. -/
def looseString : Reader Unit := do
  expect Ascii.quote
  fun s => match looseStringTail false 0 s with
    | some rest => .ok ((), rest)
    | none => .error .malformed

-- ── Arrays and objects ──────────────────────────────────────────────────────

/-- The items of an array from the next one to the closing bracket. The fuel bounds their number. -/
def itemsFrom (item : Reader α) : (fuel : Nat) → Reader (List α)
  | 0 => fail
  | fuel + 1 => do
      let first ← item
      let b ← next
      if b = Ascii.comma then
        let rest ← itemsFrom item fuel
        return first :: rest
      else if b = Ascii.closeBracket then return [first]
      else fail

/-- The items of an array behind its opening bracket. -/
def items (item : Reader α) : Reader (List α) := do
  if ← passes Ascii.closeBracket then return []
  else itemsFrom item (← get).length

/-- An array of items of one kind. -/
def array (item : Reader α) : Reader (List α) := do
  expect Ascii.openBracket
  items item

/-- Folds the members of an object from the next one to the closing brace. The fuel bounds
    their number. -/
def membersFrom (key : Reader κ) (member : σ → κ → Reader σ) : (fuel : Nat) → σ → Reader σ
  | 0, _ => fail
  | fuel + 1, seen => do
      let k ← key
      expect Ascii.colon
      let seen ← member seen k
      let b ← next
      if b = Ascii.comma then membersFrom key member fuel seen
      else if b = Ascii.closeBrace then return seen
      else fail

/-- Folds the members of an object behind its opening brace. -/
def members (key : Reader κ) (member : σ → κ → Reader σ) (start : σ) : Reader σ := do
  if ← passes Ascii.closeBrace then return start
  else membersFrom key member (← get).length start

/-- Folds the members of an object. -/
def object (key : Reader κ) (member : σ → κ → Reader σ) (start : σ) : Reader σ := do
  expect Ascii.openBrace
  members key member start

/-- Folds the items of an array from the next one to the closing bracket, each under the
    next of the names. -/
def namedItemsFrom (field : σ → String → Reader σ) : List String → σ → Reader σ
  | [], _ => fail
  | name :: names, seen => do
      let seen ← field seen name
      let b ← next
      if b = Ascii.comma then namedItemsFrom field names seen
      else if b = Ascii.closeBracket then return seen
      else fail

/-- Folds the fields of a record, which is written as an object, or as the array of its
    fields in the order of `names`. -/
def record (names : List String) (field : σ → String → Reader σ) (start : σ) : Reader σ := do
  let b ← next
  if b = Ascii.openBrace then members string field start
  else if b = Ascii.openBracket then
    if ← passes Ascii.closeBracket then return start
    else namedItemsFrom field names start
  else fail

-- ── Passing over ────────────────────────────────────────────────────────────

/-- The words of the literals. -/
def nullWord : Bytes := [0x6E, 0x75, 0x6C, 0x6C]

@[inherit_doc nullWord] def trueWord : Bytes := [0x74, 0x72, 0x75, 0x65]

@[inherit_doc nullWord] def falseWord : Bytes := [0x66, 0x61, 0x6C, 0x73, 0x65]

/-- Passes a value of the grammar, of at most the given depth. -/
def skipWithin : (depth : Nat) → Reader Unit
  | 0 => fail
  | depth + 1 => do
      let b ← peek
      if b = Ascii.quote then looseString
      else if b = Ascii.openBracket then discard <| array (skipWithin depth)
      else if b = Ascii.openBrace then object looseString (fun _ _ => skipWithin depth) ()
      else if b = Ascii.letterN then word nullWord
      else if b = Ascii.letterT then word trueWord
      else if b = Ascii.letterF then word falseWord
      else discard numeral

/-- Passes a value of the grammar. No value is deeper than its text is long. -/
def skip : Reader Unit := do
  skipWithin ((← get).length + 1)

-- ── Documents ───────────────────────────────────────────────────────────────

/-- A whole document: one value, with blanks around it and nothing else. -/
def document (read : Reader α) (text : Bytes) : Except Fault α := do
  let (x, rest) ← read.run text
  if skipBlank rest = [] then return x else throw .malformed

end MetricDepot.Json
