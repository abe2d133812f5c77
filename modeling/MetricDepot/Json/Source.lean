import MetricDepot.Json.Tree
/-!
# Sources — where the fields of a record are read from

A record inside a document is read as the document goes by; a record inside a tree is
read from the trees of its members. Both ways know the same three things to do with a
field: take it as a sample, take it as a count, or pass it over. A `Source` holds these
three, so that a record is described once and read either way.
-/

namespace MetricDepot.Json

variable {σ : Type}

-- ── Samples ─────────────────────────────────────────────────────────────────

/-- The special value of a name. -/
def special? (name : String) : Option Binary64 :=
  if name = "NaN" then some Binary64.nan
  else if name = "+Inf" then some (Binary64.infinity false)
  else if name = "-Inf" then some (Binary64.infinity true)
  else none

/-- A sample that is given by name. -/
def named (name : String) : Except Fault Binary64 :=
  match special? name with
  | some x => .ok x
  | none => .error (.badSample name)

/-- A sample: a number, or the name of a special value. -/
def sample : Reader Binary64 := do
  if (← peek) = Ascii.quote then
    judged (named (← string))
  else orFail (← numeral).toBinary64?

/-- A count of 64 bits: a whole number without a sign. -/
def count : Reader UInt64 := do
  UInt64.ofNat <$> orFail ((← numeral).toCount? UInt64.size)

/-- A signed word: a whole number. -/
def signed : Reader Int64 := do
  orFail (← numeral).toSigned?

/-- What `read` takes, or nothing where the document says null. -/
def nullable {α : Type} (read : Reader α) : Reader (Option α) := do
  if (← peek) = Ascii.letterN then
    word nullWord
    return none
  else some <$> read

-- ── Sources ─────────────────────────────────────────────────────────────────

/-- The ways to take a field. -/
structure Source (m : Type → Type) where
  sample : m Binary64
  count : m UInt64
  skip : m Unit

/-- The fields of a document that goes by. -/
def passing : Source Reader := ⟨sample, count, skip⟩

/-- Reads from one tree. -/
abbrev Held := ReaderT Tree (Except Fault)

/-- The fields of a tree that was read before. -/
def held : Source Held where
  sample
    | .number n => orFail n.toBinary64?
    | .text name => named name
    | _ => fail
  count
    | .number n => UInt64.ofNat <$> orFail (n.toCount? UInt64.size)
    | _ => fail
  skip _ := pure ()

-- ── Records in trees ────────────────────────────────────────────────────────

/-- Folds the fields of a record that is a tree, an object or the array of its fields in
    the order of `names`. -/
def Tree.record (names : List String) (field : σ → String → Held σ) (start : σ) : Held σ
  | .object members => members.foldlM (fun seen member => field seen member.1 member.2) start
  | .array items => do
      let seen ← (names.zip items).foldlM (fun seen item => field seen item.1 item.2) start
      if items.length ≤ names.length then return seen else fail
  | _ => fail

/-- The items of an array that is a tree. -/
def Tree.list {α : Type} (item : Held α) : Held (List α)
  | .array items => items.mapM item
  | _ => fail

end MetricDepot.Json
