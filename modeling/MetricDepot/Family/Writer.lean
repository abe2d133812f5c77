import MetricDepot.Family.Basic
import MetricDepot.Json.Writer
/-!
# Writer — families as JSON

Every record is written as an object, its fields in a fixed order and without blanks. A
value says its kind in the member `type` and holds the fields of that kind beside it. The
time of a sample is left out where there is none. Labels come in the order of their map.
-/

namespace MetricDepot

open Json

/-- The text of a count. -/
def countText (n : UInt64) : Bytes := Ascii.natural n.toNat

/-- The text of a quantile. -/
def Quantile.json (q : Quantile) : Bytes :=
  objectText [("quantile", sampleText q.quantile), ("value", sampleText q.value)]

/-- The text of a bucket. -/
def Bucket.json (b : Bucket) : Bytes :=
  objectText [("upper_bound", sampleText b.upperBound), ("cumulative_count", countText b.count)]

/-- The text of a kind. -/
def Kind.json (k : Kind) : Bytes := quoted k.name

/-- The members of a value beside its type. -/
def Value.members : Value → List (String × Bytes)
  | counter x => [("value", sampleText x)]
  | gauge x => [("value", sampleText x)]
  | untyped x => [("value", sampleText x)]
  | summary n s qs =>
      [("sample_count", countText n), ("sample_sum", sampleText s),
        ("quantiles", arrayText (qs.map Quantile.json))]
  | histogram n s bs =>
      [("sample_count", countText n), ("sample_sum", sampleText s),
        ("buckets", arrayText (bs.map Bucket.json))]

/-- The text of a value. -/
def Value.json (v : Value) : Bytes := objectText (("type", v.kind.json) :: v.members)

/-- The text of a set of labels. -/
def labelsJson (labels : SortedMap String) : Bytes := objectText (labels.mapValues quoted).entries

/-- The member for the time of a sample, if it has one. -/
def timestampMember : Option Int64 → List (String × Bytes)
  | none => []
  | some t => [("timestamp_ms", Ascii.integer t.toInt)]

/-- The text of a sample. -/
def Sample.json (s : Sample) : Bytes :=
  objectText ([("labels", labelsJson s.labels), ("value", s.value.json)] ++ timestampMember s.timestamp)

/-- The text of a family. -/
def Family.json (f : Family) : Bytes :=
  objectText [("name", quoted f.name), ("help", quoted f.help), ("kind", f.kind.json),
    ("metrics", arrayText (f.samples.map Sample.json))]

end MetricDepot
