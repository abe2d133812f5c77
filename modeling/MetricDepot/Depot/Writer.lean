import MetricDepot.Depot.Basic
/-!
# Writer — the one who changes the catalog

The writer of a depot goes in small steps, each of which handles one message, does one
effect on the disk, or passes from one activity to the next. Waiting, it first sees to a
checkpoint that is due, and only then takes a message; with the message begins a batch of
at most 1024, which takes whatever is already queued. At the end of a batch that changed
the catalog the next checkpoint is set for an interval later, unless one is set already. A
checkpoint that fails is tried again after five seconds.

The word to stop ends a batch at once and closes the queue. So does the last handle when
it goes. What is still queued is handled, and a last checkpoint is written whether or not
anything has changed.
-/

namespace MetricDepot.Depot

/-- The greatest number of messages in a batch. -/
def batchLimit : Nat := 1024

/-- The milliseconds from a failed checkpoint to the next attempt. -/
def retryDelay : Nat := 5000

-- ── Messages ────────────────────────────────────────────────────────────────

/-- Applies a request, and says whether it changed the catalog. -/
def applyRequest (d : Depot) (r : Request) : Depot × Bool :=
  let (catalog, outcome) := d.catalog.apply r
  ({ d with catalog, counters := d.counters.dequeued.applied outcome }, outcome.changed)

/-- Answers a ticket. -/
def answer (d : Depot) (ticket : Nat) : Depot := { d with answered := ticket + 1 }

/-- Handles a message of a batch. -/
def handle (d : Depot) (handled : Nat) (changed : Bool) : Message → Depot
  | .write r =>
      let (d, effective) := d.applyRequest r
      { d with phase := .batch (handled + 1) (changed || effective) }
  | .flush ticket => { d.answer ticket with phase := .batch (handled + 1) changed }
  | .shutdown => { d with phase := .draining }

/-- Handles a message of the closed queue. -/
def drain (d : Depot) : Message → Depot
  | .write r => (d.applyRequest r).1
  | .flush ticket => d.answer ticket
  | .shutdown => d

-- ── Checkpoints ─────────────────────────────────────────────────────────────

/-- Whether a checkpoint is due. The timer is taken to be exact to the millisecond: a deadline is
    due as soon as the clock shows it, and not before. A writer that waits asks for it before it
    looks into the queue, so a deadline that is due goes before any message that has come. -/
def isDue (d : Depot) (clock : Clock) : Bool := d.deadline.any (· ≤ clock.millis)

/-- Ends a batch. A writer that cannot tell the time of the next checkpoint dies, and what
    is queued is lost. -/
def endBatch (d : Depot) (clock : Clock) (changed : Bool) : Depot :=
  match changed, d.target, d.deadline with
  | true, some target, none =>
      let deadline := clock.millis + target.interval
      if deadline < Clock.limit then { d with phase := .idle, deadline := some deadline }
      else { d with phase := .killed, queue := [] }
  | _, _, _ => { d with phase := .idle }

/-- Takes note of a checkpoint that failed, and sets the next attempt. -/
def saveFailed (d : Depot) (clock : Clock) : Depot :=
  { d with
    phase := .idle
    deadline := some (clock.millis + retryDelay)
    counters := d.counters.checkpointFailed }

/-- Begins a checkpoint. -/
def beginSave (d : Depot) (clock : Clock) : Depot :=
  let d := { d with deadline := none }
  match d.target with
  | none => d
  | some target =>
      match Checkpoint.encode d.catalog with
      | .ok bytes => { d with phase := .saving (Checkpoint.replacement target.file bytes) }
      | .error _ => d.saveFailed clock

/-- Goes on with a checkpoint. -/
def continueSave (d : Depot) (clock : Clock) (disk : Disk) : List Effect → Depot × Disk
  | [] =>
      ({ d with phase := .idle, counters := d.counters.checkpointWritten clock.seconds }, disk)
  | e :: rest =>
      match disk.perform e with
      | (disk, .ok ()) => ({ d with phase := .saving rest }, disk)
      | (disk, .error _) => (d.saveFailed clock, disk)

/-- Takes note of a last checkpoint that failed. -/
def finishFailed (d : Depot) (fault : Checkpoint.Fault) : Depot :=
  { d with phase := .exited (.error fault), counters := d.counters.checkpointFailed }

/-- Begins the last checkpoint. -/
def beginFinish (d : Depot) : Depot :=
  match d.target with
  | none => { d with phase := .exited (.ok ()) }
  | some target =>
      match Checkpoint.encode d.catalog with
      | .ok bytes => { d with phase := .finishing (Checkpoint.replacement target.file bytes) }
      | .error fault => d.finishFailed fault

/-- Goes on with the last checkpoint. -/
def continueFinish (d : Depot) (clock : Clock) (disk : Disk) : List Effect → Depot × Disk
  | [] =>
      ({ d with
          phase := .exited (.ok ())
          counters := d.counters.checkpointWritten clock.seconds }, disk)
  | e :: rest =>
      match disk.perform e with
      | (disk, .ok ()) => ({ d with phase := .finishing rest }, disk)
      | (disk, .error reason) => (d.finishFailed (.io reason), disk)

-- ── Steps ───────────────────────────────────────────────────────────────────

/-- The next step of the writer, if it does not wait. -/
def step (clock : Clock) (d : Depot) (disk : Disk) : Option (Depot × Disk) :=
  match d.phase with
  | .idle =>
      if d.isDue clock then some (d.beginSave clock, disk)
      else
        match d.queue with
        | m :: rest => some ({ d with queue := rest }.handle 0 false m, disk)
        | [] => if d.handles = 0 then some ({ d with phase := .draining }, disk) else none
  | .batch handled changed =>
      match d.queue with
      | m :: rest =>
          if handled < batchLimit then some ({ d with queue := rest }.handle handled changed m, disk)
          else some (d.endBatch clock changed, disk)
      | [] => some (d.endBatch clock changed, disk)
  | .saving pending => some (d.continueSave clock disk pending)
  | .draining =>
      match d.queue with
      | m :: rest => some ({ d with queue := rest }.drain m, disk)
      | [] => some (d.beginFinish, disk)
  | .finishing pending => some (d.continueFinish clock disk pending)
  | .exited _ => none
  | .killed => none

/-- When a writer that waits goes on without a message: at the time of its checkpoint. -/
def wake? (d : Depot) : Option Nat :=
  match d.phase with
  | .idle => d.deadline
  | _ => none

/-- The steps of the writer until it waits, as many as the fuel allows. -/
def run (clock : Clock) : (fuel : Nat) → Depot → Disk → Depot × Disk
  | 0, d, disk => (d, disk)
  | fuel + 1, d, disk =>
      match d.step clock disk with
      | none => (d, disk)
      | some (d, disk) => run clock fuel d disk

/-- The effects that a checkpoint under way has still to do. -/
def pendingEffects (d : Depot) : List Effect :=
  match d.phase with
  | .saving pending => pending
  | .finishing pending => pending
  | _ => []

/-- No writer takes more steps than this before it waits: a batch is over after its messages
    and the at most eight steps of a checkpoint. -/
def stepBound (d : Depot) : Nat := 10 * d.queue.length + d.pendingEffects.length + 40

/-- The depot and the disk when the writer waits. -/
def settle (clock : Clock) (d : Depot) (disk : Disk) : Depot × Disk := run clock d.stepBound d disk

end MetricDepot.Depot
