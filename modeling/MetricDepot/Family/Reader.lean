import MetricDepot.Family.Basic
import MetricDepot.Json.Source
/-!
# Reader — families from JSON

Families are read more liberally than they are written: members may come in any order and
beside unknown ones, a record may be the array of its fields, a kind may be the key of a
null, and a number may stand for a sample in any notation. A known member that comes twice
or is missing is malformed, except that of a repeated label the last counts, and that the
time of a sample may be missing or null.

A family that was read need not be valid; nothing here asks for a flaw.

Families, samples and their labels are read as the document goes by. A value is read as a
tree first, since its fields depend on a `type` that may come after them.
-/

namespace MetricDepot

open Json

-- ── Quantiles and buckets ───────────────────────────────────────────────────

section Fields

variable {m : Type → Type} [Monad m] [MonadExceptOf Fault m]

/-- What is known of a quantile. -/
structure Quantile.Draft where
  quantile : Option Binary64 := none
  value : Option Binary64 := none

/-- Takes one field of a quantile. -/
def Quantile.field (source : Source m) (d : Quantile.Draft) (key : String) : m Quantile.Draft :=
  if key = "quantile" then do return { d with quantile := ← once d.quantile source.sample }
  else if key = "value" then do return { d with value := ← once d.value source.sample }
  else do source.skip; return d

/-- The quantile of which every field is known. -/
def Quantile.ofDraft (d : Quantile.Draft) : m Quantile := do
  return ⟨← orFail d.quantile, ← orFail d.value⟩

/-- What is known of a bucket. -/
structure Bucket.Draft where
  upperBound : Option Binary64 := none
  count : Option UInt64 := none

/-- Takes one field of a bucket. -/
def Bucket.field (source : Source m) (d : Bucket.Draft) (key : String) : m Bucket.Draft :=
  if key = "upper_bound" then do return { d with upperBound := ← once d.upperBound source.sample }
  else if key = "cumulative_count" then do return { d with count := ← once d.count source.count }
  else do source.skip; return d

/-- The bucket of which every field is known. -/
def Bucket.ofDraft (d : Bucket.Draft) : m Bucket := do
  return ⟨← orFail d.upperBound, ← orFail d.count⟩

end Fields

/-- The fields of a quantile in order. -/
def Quantile.fieldNames : List String := ["quantile", "value"]

/-- Reads a quantile. -/
def Quantile.read : Reader Quantile := do
  Quantile.ofDraft (← record fieldNames (Quantile.field passing) {})

/-- The quantile that a tree is. -/
def Quantile.ofTree : Held Quantile := do
  Quantile.ofDraft (← Tree.record fieldNames (Quantile.field held) {})

/-- The fields of a bucket in order. -/
def Bucket.fieldNames : List String := ["upper_bound", "cumulative_count"]

/-- Reads a bucket. -/
def Bucket.read : Reader Bucket := do
  Bucket.ofDraft (← record fieldNames (Bucket.field passing) {})

/-- The bucket that a tree is. -/
def Bucket.ofTree : Held Bucket := do
  Bucket.ofDraft (← Tree.record fieldNames (Bucket.field held) {})

-- ── Values ──────────────────────────────────────────────────────────────────

/-- Takes the one field of a value that is a single number. -/
def singleField (d : Option Binary64) (key : String) : Held (Option Binary64) :=
  if key = "value" then once d held.sample else return d

/-- The number of a value that is a single one. -/
def singleOfTree : Held Binary64 := do
  orFail (← Tree.record ["value"] singleField none)

/-- What is known of a value that has a count, a sum, and items of type `α`. -/
structure Aggregate.Draft (α : Type) where
  count : Option UInt64 := none
  sum : Option Binary64 := none
  items : Option (List α) := none

/-- Takes one field of a value that has a count, a sum, and items under the name `plural`. -/
def aggregateField {α : Type} (plural : String) (item : Held α) (d : Aggregate.Draft α)
    (key : String) : Held (Aggregate.Draft α) :=
  if key = "sample_count" then do return { d with count := ← once d.count held.count }
  else if key = "sample_sum" then do return { d with sum := ← once d.sum held.sample }
  else if key = plural then do return { d with items := ← once d.items (Tree.list item) }
  else return d

/-- The parts of a value that has a count, a sum, and items. -/
def aggregateOfTree {α : Type} (plural : String) (item : Held α)
    (build : UInt64 → Binary64 → List α → Value) : Held Value := do
  let d ← Tree.record ["sample_count", "sample_sum", plural] (aggregateField plural item) {}
  return build (← orFail d.count) (← orFail d.sum) (← orFail d.items)

/-- The value of a kind whose fields a tree holds. -/
def Value.ofFields : Kind → Held Value
  | .counter => .counter <$> singleOfTree
  | .gauge => .gauge <$> singleOfTree
  | .untyped => .untyped <$> singleOfTree
  | .summary => aggregateOfTree "quantiles" Quantile.ofTree .summary
  | .histogram => aggregateOfTree "buckets" Bucket.ofTree .histogram

/-- The value that a tree is: an object with one member `type` that names the kind, or an
    array that begins with that name. -/
def Value.ofTree : Held Value
  | .object members =>
      match members.filter (·.1 == "type") with
      | [(_, .text name)] => do
          Value.ofFields (← orFail (Kind.ofName? name)) (.object (members.filter (·.1 != "type")))
      | _ => fail
  | .array (.text name :: fields) => do
      Value.ofFields (← orFail (Kind.ofName? name)) (.array fields)
  | _ => fail

/-- Reads a value around which the document nests `outer` containers. -/
def Value.read (outer : Nat) : Reader Value := do
  judged (Value.ofTree (← tree (nestingLimit - outer)))

-- ── Families ────────────────────────────────────────────────────────────────

/-- Reads a kind: its name, alone or as the key of a null. -/
def Kind.read : Reader Kind := do
  if (← peek) = Ascii.openBrace then
    expect Ascii.openBrace
    let kind ← orFail (Kind.ofName? (← string))
    expect Ascii.colon
    word nullWord
    expect Ascii.closeBrace
    return kind
  else orFail (Kind.ofName? (← string))

/-- Reads a set of labels. -/
def readLabels : Reader (SortedMap String) :=
  object string (fun labels name => do return labels.insert name (← string)) SortedMap.empty

/-- What is known of a sample. -/
structure Sample.Draft where
  labels : Option (SortedMap String) := none
  value : Option Value := none
  timestamp : Option (Option Int64) := none

/-- Takes one field of a sample around which the document nests `outer` containers. -/
def Sample.field (outer : Nat) (d : Sample.Draft) (key : String) : Reader Sample.Draft :=
  if key = "labels" then do return { d with labels := ← once d.labels readLabels }
  else if key = "value" then do return { d with value := ← once d.value (Value.read (outer + 1)) }
  else if key = "timestamp_ms" then do
    return { d with timestamp := ← once d.timestamp (nullable signed) }
  else do skip; return d

/-- The fields of a sample in order. -/
def Sample.fieldNames : List String := ["labels", "value", "timestamp_ms"]

/-- Reads a sample around which the document nests `outer` containers. -/
def Sample.read (outer : Nat) : Reader Sample := do
  let d ← record fieldNames (Sample.field outer) {}
  return ⟨← orFail d.labels, ← orFail d.value, d.timestamp.getD none⟩

/-- What is known of a family. -/
structure Family.Draft where
  name : Option String := none
  help : Option String := none
  kind : Option Kind := none
  samples : Option (List Sample) := none

/-- Takes one field of a family around which the document nests `outer` containers. -/
def Family.field (outer : Nat) (d : Family.Draft) (key : String) : Reader Family.Draft :=
  if key = "name" then do return { d with name := ← once d.name string }
  else if key = "help" then do return { d with help := ← once d.help string }
  else if key = "kind" then do return { d with kind := ← once d.kind Kind.read }
  else if key = "metrics" then do
    return { d with samples := ← once d.samples (array (Sample.read (outer + 2))) }
  else do skip; return d

/-- The fields of a family in order. -/
def Family.fieldNames : List String := ["name", "help", "kind", "metrics"]

/-- Reads a family around which the document nests `outer` containers. -/
def Family.read (outer : Nat) : Reader Family := do
  let d ← record fieldNames (Family.field outer) {}
  return ⟨← orFail d.name, ← orFail d.help, ← orFail d.kind, ← orFail d.samples⟩

end MetricDepot
