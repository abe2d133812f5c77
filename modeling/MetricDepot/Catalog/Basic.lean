import MetricDepot.Request
/-!
# Catalog — the stored families by job, instance and name

A catalog maps jobs to instances, instances to names, and names to stored families. A
write replaces families slot by slot and leaves every other slot alone; it takes only the
families whose key is their name, that have no flaw, and of which the group admits
something. A deletion takes a whole job or one instance, and a job without instances goes
with its last instance.

Neither operation leaves an empty job or an empty instance behind, so a key is present
exactly when some slot lies under it.
-/

namespace MetricDepot

/-- A family and the time at which it was received. -/
structure Stored where
  received : ReceiveTime
  family : Family
deriving DecidableEq

/-- A place for one family: a name in a group. -/
structure Slot where
  group : Group
  name : String
deriving DecidableEq, Repr

/-- What applying a request did. -/
structure Outcome where
  written : Nat
  rejected : Nat
  samplesRejected : Nat
  isDelete : Bool
  changed : Bool
deriving DecidableEq, Repr

/-- The stored families, by job, instance and name. -/
structure Catalog where
  jobs : SortedMap (SortedMap (SortedMap Stored))
deriving DecidableEq

namespace Catalog

/-- The catalog without families. -/
def empty : Catalog := ⟨SortedMap.empty⟩

instance : Inhabited Catalog := ⟨empty⟩

-- ── Slots ───────────────────────────────────────────────────────────────────

/-- The names of a group, if it is present. -/
def names? (c : Catalog) (g : Group) : Option (SortedMap Stored) :=
  (c.jobs.get? g.job).bind (·.get? g.inst)

/-- What is stored in a slot. -/
def get? (c : Catalog) (s : Slot) : Option Stored := (c.names? s.group).bind (·.get? s.name)

/-- Puts a family into a slot, whatever was there before. -/
def insert (c : Catalog) (s : Slot) (stored : Stored) : Catalog :=
  let instances := (c.jobs.get? s.group.job).getD SortedMap.empty
  let names := (instances.get? s.group.inst).getD SortedMap.empty
  ⟨c.jobs.insert s.group.job (instances.insert s.group.inst (names.insert s.name stored))⟩

theorem names?_insert (c : Catalog) (s : Slot) (stored : Stored) (g : Group) :
    (c.insert s stored).names? g =
      if g = s.group then some (((c.names? g).getD SortedMap.empty).insert s.name stored)
      else c.names? g := by
  obtain ⟨⟨job, inst⟩, name⟩ := s
  obtain ⟨otherJob, otherInst⟩ := g
  show ((c.jobs.insert job _).get? otherJob).bind (·.get? otherInst) = _
  rw [SortedMap.get?_insert]
  by_cases hjob : otherJob = job
  · subst hjob
    rw [if_pos rfl, Option.bind_some, SortedMap.get?_insert]
    by_cases hinst : otherInst = inst
    · subst hinst
      rw [if_pos rfl, if_pos rfl]
      cases h : c.jobs.get? otherJob <;> simp [names?, h]
    · rw [if_neg hinst, if_neg (by simp [hinst])]
      cases h : c.jobs.get? otherJob <;> simp [names?, h]
  · rw [if_neg hjob, if_neg (by simp [hjob])]
    rfl

/-- Putting a family into a slot changes that slot and no other. -/
theorem get?_insert (c : Catalog) (s t : Slot) (stored : Stored) :
    (c.insert s stored).get? t = if t = s then some stored else c.get? t := by
  obtain ⟨g, name⟩ := s
  obtain ⟨other, otherName⟩ := t
  rw [get?, names?_insert]
  by_cases hgroup : other = g
  · subst hgroup
    rw [if_pos rfl, Option.bind_some, SortedMap.get?_insert]
    by_cases hname : otherName = name
    · rw [if_pos hname, if_pos (by rw [hname])]
    · rw [if_neg hname, if_neg (by simp [hname])]
      cases h : c.names? other <;> simp [get?, h]
  · rw [if_neg hgroup, if_neg (by simp [hgroup])]
    rfl

-- ── Writing ─────────────────────────────────────────────────────────────────

/-- What a group takes of a family that is offered under a key: nothing unless the key is
    the family's name and the family has no flaw. -/
def judge (g : Group) (key : String) (f : Family) : Admission :=
  if key = f.name ∧ f.isValid then f.admission g else ⟨none, 0⟩

/-- Writes the families that the group takes, in the given order. A time before the epoch
    counts as the epoch. -/
def write (c : Catalog) (g : Group) (received : ReceiveTime) (offered : List (String × Family)) :
    Catalog × Outcome :=
  let verdicts := offered.map fun (key, f) => (key, judge g key f)
  let accepted := verdicts.filterMap fun (key, verdict) => verdict.accepted.map (key, ·)
  let stored := accepted.foldl
    (fun c (key, f) => c.insert ⟨g, key⟩ ⟨max received .epoch, f⟩) c
  (stored,
    { written := accepted.length
      rejected := verdicts.countP (·.2.accepted.isNone)
      samplesRejected := (verdicts.map (·.2.rejected)).foldl (· + ·) 0
      isDelete := false
      changed := !accepted.isEmpty })

-- ── Deleting ────────────────────────────────────────────────────────────────

/-- Removes a job, or one of its instances, and says whether it was there. -/
def remove (c : Catalog) (g : Group) : Catalog × Bool :=
  if g.inst = "" then (⟨c.jobs.erase g.job⟩, c.jobs.contains g.job)
  else
    match c.jobs.get? g.job with
    | none => (c, false)
    | some instances =>
        let remaining := instances.erase g.inst
        (⟨if remaining.isEmpty then c.jobs.erase g.job else c.jobs.insert g.job remaining⟩,
          instances.contains g.inst)

-- ── Requests ────────────────────────────────────────────────────────────────

/-- Applies a request. -/
def apply (c : Catalog) (r : Request) : Catalog × Outcome :=
  match r.change with
  | .write families => c.write r.group r.received families.entries
  | .delete =>
      let (remaining, removed) := c.remove r.group
      (remaining, ⟨0, 0, 0, true, removed⟩)

/-- Applies requests one after another. -/
def applyAll (c : Catalog) (requests : List Request) : Catalog :=
  requests.foldl (fun c r => (c.apply r).1) c

end Catalog

end MetricDepot
