import MetricDepot.Depot.Basic
import MetricDepot.Settings.Basic
/-!
# Client — what the holders of a handle do

Holders submit requests, ask to be told when everything before is done, look at the
catalog and the counters, and shut the depot down. None of this changes the catalog; it
only puts messages into the queue, or waits for what the writer does. A closed queue takes
nothing, and says nothing: a request that comes too late is lost.

A shutdown has two halves, the word to stop and the wait for the writer. Only the first
holder who begins one gets an answer; all others are told that it has begun.
-/

namespace MetricDepot.Depot

-- ── Opening ─────────────────────────────────────────────────────────────────

/-- A depot that keeps everything in memory. -/
def inMemory : Depot := start .empty none

/-- A depot that begins with the catalog of a file and writes its checkpoints there. -/
def openFile (file : String) (interval : Duration) (files : FileSystem) : Except Refusal Depot :=
  match Checkpoint.restore file files with
  | .ok catalog => .ok (start catalog (some ⟨file, interval⟩))
  | .error fault => .error (.checkpoint fault)

/-- Why settings open no depot. -/
inductive OpenFault where
  | settings (fault : Settings.Fault)
  | refusal (refusal : Refusal)
deriving DecidableEq, Repr

/-- The depot that settings ask for. -/
def ofSettings (settings : Settings) (files : FileSystem) : Except OpenFault Depot :=
  match settings.persistence with
  | none => .ok inMemory
  | some p =>
      match p.duration with
      | .error fault => .error (.settings fault)
      | .ok interval => (openFile p.file interval files).mapError .refusal

-- ── Requests ────────────────────────────────────────────────────────────────

/-- Puts a message into the queue, unless that is closed. -/
def send (d : Depot) (m : Message) : Depot :=
  if d.isClosed then d else { d with queue := d.queue ++ [m] }

/-- Submits a request. -/
def submit (d : Depot) (r : Request) : Depot :=
  if d.isClosed then d else { d.send (.write r) with counters := d.counters.enqueued }

/-- Submits requests, one behind another, in one go. -/
def submitAll (d : Depot) (rs : List Request) : Depot :=
  if d.isClosed then d
  else
    { d with
      queue := d.queue ++ rs.map .write
      counters := rs.foldl (fun c _ => c.enqueued) d.counters }

theorem isClosed_submit (d : Depot) (r : Request) : (d.submit r).isClosed = d.isClosed := by
  rw [submit, send]
  split
  · rfl
  · rfl

/-- Submitting all at once is submitting one after another. -/
theorem submitAll_eq_foldl (d : Depot) (rs : List Request) : d.submitAll rs = rs.foldl submit d := by
  induction rs generalizing d with
  | nil =>
    rw [submitAll, List.foldl_nil]
    split
    · rfl
    · simp
  | cons r rest ih =>
    rw [List.foldl_cons, ← ih, submitAll, submitAll, isClosed_submit]
    by_cases h : d.isClosed = true
    · rw [if_pos h, if_pos h, submit, if_pos h]
    · rw [if_neg h, if_neg h, submit, if_neg h, send, if_neg h]
      simp

-- ── Waiting ─────────────────────────────────────────────────────────────────

/-- What a holder who flushes waits for: the answer to a ticket, or, where the queue was
    closed already, the end of the drain. -/
inductive FlushWait where
  | ticket (number : Nat)
  | drain
deriving DecidableEq, Repr

/-- Begins to flush. -/
def beginFlush (d : Depot) : Depot × FlushWait :=
  if d.isClosed then (d, .drain)
  else ({ d.send (.flush d.tickets) with tickets := d.tickets + 1 }, .ticket d.tickets)

/-- Whether a flush returns now. When the writer is gone, nobody waits for it. -/
def flushReturns (d : Depot) : FlushWait → Bool
  | .ticket number => number < d.answered || d.isOver
  | .drain => d.isDrained || d.isOver

-- ── Shutdown ────────────────────────────────────────────────────────────────

/-- Begins a shutdown. -/
def beginShutdown (d : Depot) : Except Refusal Depot :=
  if d.stopping then .error .alreadyShutDown
  else .ok { d.send .shutdown with stopping := true }

/-- What a shutdown that was begun answers, if the writer is gone. -/
def shutdownAnswer? (d : Depot) : Option (Except Refusal Unit) :=
  match d.phase with
  | .exited result => some (result.mapError .checkpoint)
  | .killed => some (.error .writerFailed)
  | _ => none

/-- Completes a shutdown, if the writer is gone. -/
def endShutdown (d : Depot) : Option (Depot × Except Refusal Unit) :=
  d.shutdownAnswer?.map fun result => ({ d with stopped := true }, result)

/-- Whether requests are still taken and applied. -/
def health (d : Depot) : Except Refusal Unit :=
  if d.lifecycle = .running ∧ !d.stopping ∧ !d.isOver then .ok () else .error .notRunning

-- ── Handles ─────────────────────────────────────────────────────────────────

/-- Makes one more handle. -/
def addHandle (d : Depot) : Depot := { d with handles := d.handles + 1 }

/-- Gives up a handle. -/
def dropHandle (d : Depot) : Depot := { d with handles := d.handles - 1 }

end MetricDepot.Depot
