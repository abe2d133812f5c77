/-!
# Kinds — what the samples of a family measure

The five kinds and their names. `ofName?_eq_some_iff` says that the names tell them apart.
-/

namespace MetricDepot

/-- What the samples of a family measure. -/
inductive Kind where
  | counter
  | gauge
  | summary
  | histogram
  | untyped
deriving DecidableEq, Repr, Inhabited

namespace Kind

/-- Every kind. -/
def all : List Kind := [counter, gauge, summary, histogram, untyped]

/-- The name of a kind. -/
def name : Kind → String
  | counter => "counter"
  | gauge => "gauge"
  | summary => "summary"
  | histogram => "histogram"
  | untyped => "untyped"

/-- The kind of a name. -/
def ofName? (text : String) : Option Kind := all.find? (·.name == text)

theorem ofName?_name (k : Kind) : ofName? k.name = some k := by
  cases k <;> rfl

theorem ofName?_eq_some_iff {text : String} {k : Kind} : ofName? text = some k ↔ text = k.name := by
  constructor
  · intro h
    have := List.find?_some h
    simpa using (beq_iff_eq.mp this).symm
  · rintro rfl
    exact ofName?_name k

end Kind

end MetricDepot
