import MetricDepot.Depot.Client
import MetricDepot.Depot.Writer
/-!
# Host — depots on one disk, under one clock

A host has a clock, a disk, and the depots that were opened on it, each known by its
place. Writers do their work while somebody waits: then all of them go on, in the order in
which their depots were opened, until none has anything to do, and again at every time on
the way at which a checkpoint is due. Who waits is the first to go on at the end of the
wait, so that a checkpoint due at that very time is left for the next one. Waiting for a
writer takes a millisecond, and otherwise time passes only when it is told to.
-/

namespace MetricDepot

/-- Depots on one disk, under one clock. -/
structure Host where
  clock : Clock
  disk : Disk
  depots : List Depot

namespace Host

/-- A host without depots, on an empty disk that never fails. -/
def start (clock : Clock) : Host := ⟨clock, .sound .empty, []⟩

instance : Inhabited Host := ⟨start ⟨0, 0⟩⟩

/-- The depot at a place. -/
def depot? (h : Host) (place : Nat) : Option Depot := h.depots[place]?

/-- Adds a depot, and says its place. -/
def add (h : Host) (d : Depot) : Host × Nat := ({ h with depots := h.depots ++ [d] }, h.depots.length)

/-- Changes the depot at a place. -/
def update (h : Host) (place : Nat) (change : Depot → Depot) : Host :=
  { h with depots := h.depots.modify place change }

/-- Changes the files. -/
def withFiles (h : Host) (files : FileSystem) : Host := { h with disk := { h.disk with files } }

/-- Lets writers work, one after another. -/
def settleAll (clock : Clock) : List Depot → Disk → List Depot × Disk
  | [], disk => ([], disk)
  | d :: rest, disk =>
      let (d, disk) := d.settle clock disk
      let (rest, disk) := settleAll clock rest disk
      (d :: rest, disk)

/-- Lets all writers work until they wait. -/
def settle (h : Host) : Host :=
  let (depots, disk) := settleAll h.clock h.depots h.disk
  { h with depots, disk }

/-- The earliest time at which a writer wakes, if that is before `target`. -/
def nextWake? (h : Host) (target : Nat) : Option Nat :=
  ((h.depots.filterMap (·.wake?)).filter (· < target)).min?

/-- The host with its clock set forward to a time. -/
def atTime (h : Host) (millis : Nat) : Host := { h with clock := { h.clock with millis } }

/-- Lets the clock go on to a time. Writers work at once, and again whenever a checkpoint
    falls due on the way. The fuel bounds how often that is. -/
def passTo (target : Nat) : (fuel : Nat) → Host → Host
  | 0, h => h.settle.atTime target
  | fuel + 1, h =>
      let h := h.settle
      match h.nextWake? target with
      | some due => passTo target fuel (h.atTime due)
      | none => h.atTime target

/-- Waits some milliseconds; to wait for none lets nobody work. Where writers have settled,
    whatever is set lies ahead, so the clock moves each time. -/
def advance (h : Host) (millis : Nat) : Host :=
  if millis = 0 then h else passTo (h.clock.millis + millis) millis h

/-- Waits for all writers, which takes a millisecond. -/
def wait (h : Host) : Host := h.advance 1

/-- Flushes a depot. -/
def flush (h : Host) (place : Nat) : Host := (h.update place fun d => d.beginFlush.1).wait

/-- Begins a shutdown. -/
def beginShutdown (h : Host) (place : Nat) : Except Refusal Host :=
  match h.depot? place with
  | none => .error .notRunning
  | some d => d.beginShutdown.map fun d => h.update place fun _ => d

/-- Completes a shutdown that was begun, if the writer is gone, and says what it answers. -/
def completeShutdown? (h : Host) (place : Nat) : Option (Host × Except Refusal Unit) :=
  ((h.depot? place).bind Depot.endShutdown).map fun (d, result) => (h.update place fun _ => d, result)

/-- Begins a shutdown without waiting for it. It is complete at once, and has an answer,
    where it is refused or the writer is gone. -/
def startShutdown (h : Host) (place : Nat) : Host × Option (Except Refusal Unit) :=
  match h.beginShutdown place with
  | .error refusal => (h, some (.error refusal))
  | .ok h =>
      match h.completeShutdown? place with
      | some (h, result) => (h, some result)
      | none => (h, none)

/-- Waits for a shutdown that was begun. -/
def endShutdown (h : Host) (place : Nat) : Host × Except Refusal Unit :=
  let h := h.wait
  (h.completeShutdown? place).getD (h, .error .writerFailed)

/-- Begins a shutdown and waits for it. A holder who is refused has waited too. -/
def shutdown (h : Host) (place : Nat) : Host × Except Refusal Unit :=
  match h.beginShutdown place with
  | .error refusal => (h.wait, .error refusal)
  | .ok h => h.endShutdown place

/-- Gives up a handle and waits. -/
def drop (h : Host) (place : Nat) : Host := (h.update place Depot.dropHandle).wait

end Host

end MetricDepot
