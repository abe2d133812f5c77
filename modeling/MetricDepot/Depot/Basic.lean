import MetricDepot.Checkpoint.File
import MetricDepot.Depot.Counters
import MetricDepot.Settings.Duration
/-!
# Depot — a catalog behind a queue

A depot takes requests at any time and applies them later, one after another, in the order
in which they came. All changes to its catalog are made by one writer, which also writes
the checkpoints. This module holds the state of a depot between two steps of its writer;
what the writer does is in `Depot/Writer`, what the holders of a handle do in
`Depot/Client`.

The lifecycle that holders observe is no state of its own: it follows from what the writer
is at, and from whether a shutdown has been completed.
-/

namespace MetricDepot

/-- What waits in the queue of a depot: a request, the ticket of a holder who wants to know
    when all before it is done, or the word to stop. -/
inductive Message where
  | write (request : Request)
  | flush (ticket : Nat)
  | shutdown
deriving DecidableEq

/-- Where checkpoints go, and how long after a change. -/
structure Target where
  file : String
  interval : Duration
deriving DecidableEq, Repr

/-- What the writer is at: waiting; in a batch, with the number of messages handled and
    whether one of them changed the catalog; writing a checkpoint, with the effects still to
    come; emptying the closed queue; writing the last checkpoint; done, with its result; or
    dead, because the time of a checkpoint could not be told by the clock. -/
inductive Phase where
  | idle
  | batch (handled : Nat) (changed : Bool)
  | saving (pending : List Effect)
  | draining
  | finishing (pending : List Effect)
  | exited (result : Except Checkpoint.Fault Unit)
  | killed

/-- A catalog with its queue, its writer, and what holders of a handle have asked for.
    Tickets are numbered from zero, and all below `answered` have been answered. -/
structure Depot where
  catalog : Catalog
  counters : Counters
  queue : List Message
  phase : Phase
  target : Option Target
  deadline : Option Nat
  handles : Nat
  stopping : Bool
  stopped : Bool
  tickets : Nat
  answered : Nat

/-- What holders observe of the life of a depot. -/
inductive Lifecycle where
  | running
  | draining
  | persisting
  | stopped
deriving DecidableEq, Repr

/-- Why a depot refuses. -/
inductive Refusal where
  | checkpoint (fault : Checkpoint.Fault)
  | alreadyShutDown
  | notRunning
  | writerFailed
deriving DecidableEq, Repr

/-- The wording of a refusal. -/
def Refusal.message : Refusal → String
  | checkpoint fault => "persistence error: " ++ fault.message
  | alreadyShutDown => "metric store already shut down"
  | notRunning => "metric store is not running"
  | writerFailed => "writer task failed"

/-- A clock that counts milliseconds, and the second from the epoch at which it began. -/
structure Clock where
  millis : Nat
  started : Nat
deriving DecidableEq, Repr

namespace Clock

/-- The time in seconds from the epoch. -/
def seconds (c : Clock) : Nat := c.started + c.millis / 1000

/-- The clock some milliseconds later. -/
def later (c : Clock) (millis : Nat) : Clock := { c with millis := c.millis + millis }

/-- The first millisecond that clocks cannot tell. -/
def limit : Nat := 0x7FFFFFFFFFFFFFFF * 1000

end Clock

namespace Depot

/-- A depot with a catalog to begin with, and one handle. -/
def start (catalog : Catalog) (target : Option Target) : Depot :=
  { catalog, target
    counters := .zero
    queue := []
    phase := .idle
    deadline := none
    handles := 1
    stopping := false
    stopped := false
    tickets := 0
    answered := 0 }

/-- Whether the queue takes no more messages. -/
def isClosed (d : Depot) : Bool :=
  match d.phase with
  | .idle | .batch .. | .saving _ => false
  | .draining | .finishing _ | .exited _ | .killed => true

/-- Whether everything that was queued when the queue closed has been handled. -/
def isDrained (d : Depot) : Bool :=
  match d.phase with
  | .finishing _ | .exited _ => true
  | _ => false

/-- Whether the writer will do nothing any more. -/
def isOver (d : Depot) : Bool :=
  match d.phase with
  | .exited _ | .killed => true
  | _ => false

/-- The lifecycle that holders observe. -/
def lifecycle (d : Depot) : Lifecycle :=
  if d.stopped then .stopped
  else
    match d.phase with
    | .draining => .draining
    | .finishing _ | .exited _ => .persisting
    | .idle | .batch .. | .saving _ | .killed => .running

end Depot

end MetricDepot
