import MetricDepot.Catalog.Basic
import MetricDepot.Family.Reader
import MetricDepot.Family.Writer
/-!
# Records — one slot of a catalog as JSON

A record is a slot and what is stored in it. Its time is written as whole seconds and the
nanoseconds beyond them; nanoseconds that make whole seconds are carried when read. A
record can be damaged though it can be read: its family may be flawed, bear another name
than the slot, or hold samples of another group.
-/

namespace MetricDepot

open Json

/-- A slot and what is stored in it. -/
structure Record where
  slot : Slot
  stored : Stored
deriving DecidableEq

namespace ReceiveTime

/-- The text of a time that is not before the epoch. -/
def json (t : ReceiveTime) : Bytes :=
  objectText [("secs_since_epoch", Ascii.natural t.seconds),
    ("nanos_since_epoch", Ascii.natural t.subsecond)]

/-- What is known of a time. -/
structure Draft where
  seconds : Option Nat := none
  nanos : Option Nat := none

/-- Takes one field of a time, which has no unknown ones. -/
def field (d : Draft) (key : String) : Reader Draft :=
  if key = "secs_since_epoch" then do
    return { d with seconds := ← once d.seconds do orFail ((← numeral).toCount? UInt64.size) }
  else if key = "nanos_since_epoch" then do
    return { d with nanos := ← once d.nanos do orFail ((← numeral).toCount? UInt32.size) }
  else fail

/-- Reads a time. -/
def read : Reader ReceiveTime := do
  let d ← record ["secs_since_epoch", "nanos_since_epoch"] field {}
  orFail (ofParts? (← orFail d.seconds) (← orFail d.nanos))

end ReceiveTime

namespace Record

/-- The text of a record. -/
def json (r : Record) : Bytes :=
  objectText [("job", quoted r.slot.group.job), ("instance", quoted r.slot.group.inst),
    ("name", quoted r.slot.name), ("timestamp", r.stored.received.json),
    ("metric_family", r.stored.family.json)]

/-- What is known of a record. -/
structure Draft where
  job : Option String := none
  inst : Option String := none
  name : Option String := none
  received : Option ReceiveTime := none
  family : Option Family := none

/-- Takes one field of a record. -/
def field (d : Draft) (key : String) : Reader Draft :=
  if key = "job" then do return { d with job := ← once d.job string }
  else if key = "instance" then do return { d with inst := ← once d.inst string }
  else if key = "name" then do return { d with name := ← once d.name string }
  else if key = "timestamp" then do return { d with received := ← once d.received ReceiveTime.read }
  else if key = "metric_family" then do
    return { d with family := ← once d.family (Family.read 1) }
  else do skip; return d

/-- The fields of a record in order. -/
def fieldNames : List String := ["job", "instance", "name", "timestamp", "metric_family"]

/-- Reads a record. -/
def read : Reader Record := do
  let d ← record fieldNames field {}
  return ⟨⟨⟨← orFail d.job, ← orFail d.inst⟩, ← orFail d.name⟩,
    ⟨← orFail d.received, ← orFail d.family⟩⟩

end Record

-- ── Damage ──────────────────────────────────────────────────────────────────

/-- What can be wrong with a part of a checkpoint that is there in full. -/
inductive Damage where
  | text (fault : Json.Fault)
  | flawed (flaw : Flaw)
  | misnamed (name held : String)
  | misfiled (samples : Nat) (slot : Slot)
  | duplicate (slot : Slot)
  | trailing
deriving DecidableEq, Repr

/-- The wording of a fault in JSON text. -/
def Json.Fault.message : Json.Fault → String
  | malformed => "malformed JSON"
  | badSample text => "invalid sample value " ++ Text.quoted text

/-- The wording of a slot. -/
def Slot.text (s : Slot) : String := s.group.job ++ "/" ++ s.group.inst ++ "/" ++ s.name

/-- The wording of damage. -/
def Damage.message : Damage → String
  | text fault => fault.message
  | flawed flaw => flaw.message
  | misnamed name held => "record name " ++ name ++ " holds family " ++ held
  | misfiled samples slot =>
      toString samples ++ " metrics of " ++ slot.name ++ " inconsistent with job "
        ++ Text.quoted slot.group.job ++ " instance " ++ Text.quoted slot.group.inst
  | duplicate slot => "duplicate record for " ++ slot.text
  | trailing => "trailing bytes after end marker"

/-- What is wrong with a record, if anything is. -/
def Record.damage? (r : Record) : Option Damage :=
  match r.stored.family.flaw? with
  | some flaw => some (.flawed flaw)
  | none =>
      if r.stored.family.name ≠ r.slot.name then
        some (.misnamed r.slot.name r.stored.family.name)
      else
        let rejected := (r.stored.family.admission r.slot.group).rejected
        if 0 < rejected then some (.misfiled rejected r.slot) else none

end MetricDepot
