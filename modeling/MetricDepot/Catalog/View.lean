import MetricDepot.Catalog.Basic
/-!
# Views — what readers ask of a catalog

The slots in the order of job, instance and name; their number; the families merged by
name for exposition; the latest receive time of a group.

In the merge the first slot of a name fixes the kind and the help text. Slots of another
kind contribute nothing.
-/

namespace MetricDepot.Catalog

/-- The slots of one job. -/
def slotsOfJob (job : String) (instances : SortedMap (SortedMap Stored)) : List (Slot × Stored) :=
  instances.entries.flatMap fun (inst, names) =>
    names.entries.map fun (name, stored) => (⟨⟨job, inst⟩, name⟩, stored)

/-- Every slot that holds something, by job, instance and name. -/
def slots (c : Catalog) : List (Slot × Stored) :=
  c.jobs.entries.flatMap fun (job, instances) => slotsOfJob job instances

/-- The number of stored families. -/
def size (c : Catalog) : Nat :=
  (c.jobs.values.map fun instances => (instances.values.map (·.size)).foldl (· + ·) 0).foldl (· + ·) 0

/-- Whether no job is present. -/
def isEmpty (c : Catalog) : Bool := c.jobs.isEmpty

/-- The number of jobs. -/
def jobCount (c : Catalog) : Nat := c.jobs.size

/-- The number of groups. -/
def groupCount (c : Catalog) : Nat := (c.jobs.values.map (·.size)).foldl (· + ·) 0

/-- The stored families. -/
def families (c : Catalog) : List Family := c.slots.map (·.2.family)

-- ── Merging by name ─────────────────────────────────────────────────────────

/-- Joins a family to the one merged under its name, or puts it behind all others if there
    is none. A family of another kind is left out. -/
def merge (name : String) (f : Family) : List (String × Family) → List (String × Family)
  | [] => [(name, f)]
  | (n, g) :: rest =>
      if n = name then
        match g.join f with
        | .ok joined => (n, joined) :: rest
        | .error _ => (n, g) :: rest
      else (n, g) :: merge name f rest

/-- The families merged by the name of their slot, in the order in which the names occur. -/
def gather (c : Catalog) : List Family :=
  (c.slots.foldl (fun merged (slot, stored) => merge slot.name stored.family merged) []).map (·.2)

-- ── Times and comparison ────────────────────────────────────────────────────

/-- The latest receive time among the families of a group. -/
def pushTime? (c : Catalog) (g : Group) : Option ReceiveTime :=
  (c.names? g).bind fun names => (names.values.map (·.received)).max?

/-- Numeric equality: the same slots, received at the same times, with equal families. -/
def equal (c d : Catalog) : Bool :=
  c.jobs.agree (SortedMap.agree (SortedMap.agree fun a b =>
    a.received == b.received && a.family.equal b.family)) d.jobs

end MetricDepot.Catalog
