import MetricDepot.Family.Admission
import MetricDepot.ReceiveTime
/-!
# Requests — changes to one group

A request either writes families into a group, each under a key, or deletes: the one
instance that the group names, or the whole job where the instance is the empty text. It
carries the time at which it was received, which has nothing to do with the times of the
samples inside.
-/

namespace MetricDepot

/-- What a request does to its group. -/
inductive Change where
  | write (families : SortedMap Family)
  | delete
deriving DecidableEq

/-- A change to a group, with the time of its arrival. -/
structure Request where
  group : Group
  received : ReceiveTime
  change : Change
deriving DecidableEq

namespace Request

/-- A write of families under their own names; of two with one name the later counts. -/
def push (group : Group) (received : ReceiveTime) (families : List Family) : Request :=
  ⟨group, received, .write (SortedMap.ofList (families.map fun f => (f.name, f)))⟩

/-- A deletion of an instance, or of a job. -/
def delete (group : Group) (received : ReceiveTime) : Request := ⟨group, received, .delete⟩

/-- Whether a request deletes. -/
def isDelete (r : Request) : Bool :=
  match r.change with
  | .delete => true
  | .write _ => false

end Request

end MetricDepot
