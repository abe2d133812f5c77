import MetricDepot.Binary64
import MetricDepot.SortedMap
import MetricDepot.Family.Kind
/-!
# Samples — labelled values

A sample is a value of one of the five kinds, under a set of labels, with the time at
which its owner took it if the owner said so. An absent label reads as the empty text.

`equal` compares numerically and so is no equivalence: a sample that holds a NaN differs
from itself. `canonical` merges the NaNs; two samples are the same for every reader when
their canonical forms are equal.
-/

namespace MetricDepot

/-- A quantile of a summary and the value found there. -/
structure Quantile where
  quantile : Binary64
  value : Binary64
deriving DecidableEq, Repr

/-- A bucket of a histogram: how many observations are at most `upperBound`. -/
structure Bucket where
  upperBound : Binary64
  count : UInt64
deriving DecidableEq, Repr

/-- What a sample holds, by its kind. -/
inductive Value where
  | counter (value : Binary64)
  | gauge (value : Binary64)
  | untyped (value : Binary64)
  | summary (count : UInt64) (sum : Binary64) (quantiles : List Quantile)
  | histogram (count : UInt64) (sum : Binary64) (buckets : List Bucket)
deriving DecidableEq, Repr

/-- A value under its labels, with the milliseconds since the epoch that its owner gave it. -/
structure Sample where
  labels : SortedMap String
  value : Value
  timestamp : Option Int64
deriving DecidableEq

-- ── Values ──────────────────────────────────────────────────────────────────

namespace Quantile

/-- Numeric equality. -/
def equal (a b : Quantile) : Bool := a.quantile.equal b.quantile && a.value.equal b.value

/-- The quantile with its NaNs merged. -/
def canonical (q : Quantile) : Quantile := ⟨q.quantile.canonical, q.value.canonical⟩

end Quantile

namespace Bucket

/-- Numeric equality. -/
def equal (a b : Bucket) : Bool := a.upperBound.equal b.upperBound && a.count == b.count

/-- The bucket with its NaNs merged. -/
def canonical (b : Bucket) : Bucket := ⟨b.upperBound.canonical, b.count⟩

end Bucket

namespace Value

/-- The kind of family that a value may stand in. -/
def kind : Value → Kind
  | counter _ => .counter
  | gauge _ => .gauge
  | untyped _ => .untyped
  | summary .. => .summary
  | histogram .. => .histogram

/-- Numeric equality. -/
def equal : Value → Value → Bool
  | counter a, counter b => a.equal b
  | gauge a, gauge b => a.equal b
  | untyped a, untyped b => a.equal b
  | summary m s qs, summary n t rs => m == n && s.equal t && qs.isEqv rs Quantile.equal
  | histogram m s bs, histogram n t cs => m == n && s.equal t && bs.isEqv cs Bucket.equal
  | _, _ => false

/-- The value with its NaNs merged. -/
def canonical : Value → Value
  | counter x => counter x.canonical
  | gauge x => gauge x.canonical
  | untyped x => untyped x.canonical
  | summary n s qs => summary n s.canonical (qs.map Quantile.canonical)
  | histogram n s bs => histogram n s.canonical (bs.map Bucket.canonical)

@[simp] theorem kind_canonical (v : Value) : v.canonical.kind = v.kind := by
  cases v <;> rfl

end Value

-- ── Samples ─────────────────────────────────────────────────────────────────

namespace Sample

/-- The value of a label; an absent label reads as the empty text. -/
def label (s : Sample) (name : String) : String := (s.labels.get? name).getD ""

/-- Numeric equality. -/
def equal (a b : Sample) : Bool :=
  a.labels == b.labels && a.value.equal b.value && a.timestamp == b.timestamp

/-- The sample with its NaNs merged. -/
def canonical (s : Sample) : Sample := { s with value := s.value.canonical }

end Sample

end MetricDepot
