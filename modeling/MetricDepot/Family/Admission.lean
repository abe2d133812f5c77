import MetricDepot.Family.Basic
/-!
# Admission — which samples of a family belong to a group

A group is a job and one of its instances. A sample belongs to a group when its `job` and
`instance` labels say so, an absent label saying the empty text. Admitting a family to a
group keeps the samples that belong to it; a family of which nothing is left is refused,
but a family that had no samples to begin with is admitted as it is.
-/

namespace MetricDepot

/-- A job and one of its instances. -/
structure Group where
  job : String
  inst : String
deriving DecidableEq, Repr

/-- Whether the labels of a sample name a group. -/
def Sample.belongs (g : Group) (s : Sample) : Bool :=
  s.label "job" == g.job && s.label "instance" == g.inst

/-- What a group took of a family, and how many samples it refused. -/
structure Admission where
  accepted : Option Family
  rejected : Nat
deriving DecidableEq

/-- Admits a family to a group. -/
def Family.admission (g : Group) (f : Family) : Admission :=
  let rejected := f.samples.countP (!·.belongs g)
  if rejected = 0 then ⟨some f, rejected⟩
  else if rejected = f.samples.length then ⟨none, rejected⟩
  else ⟨some (f.filter (·.belongs g)), rejected⟩

end MetricDepot
