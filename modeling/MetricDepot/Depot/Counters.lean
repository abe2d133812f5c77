import MetricDepot.Catalog.Basic
/-!
# Counters — what a depot has done so far

Every applied request adds its outcome to the counters, every attempt at a checkpoint is
counted as written or failed, and the depth of the queue goes up and down with it. The
counters are shown to a scraper in its text format, one block of three lines for each.
-/

namespace MetricDepot

/-- The counters of a depot. The last checkpoint is dated in seconds from the epoch, with
    zero for none. -/
structure Counters where
  requestsApplied : Nat
  deletesApplied : Nat
  familiesWritten : Nat
  familiesRejected : Nat
  samplesRejected : Nat
  checkpointsWritten : Nat
  checkpointFailures : Nat
  lastCheckpoint : Nat
  queueDepth : Int
deriving DecidableEq, Repr

namespace Counters

/-- The counters of a new depot. -/
def zero : Counters := ⟨0, 0, 0, 0, 0, 0, 0, 0, 0⟩

instance : Inhabited Counters := ⟨zero⟩

-- ── Counting ────────────────────────────────────────────────────────────────

/-- Counts a request that entered the queue. -/
def enqueued (c : Counters) : Counters := { c with queueDepth := c.queueDepth + 1 }

/-- Counts a request that left the queue. -/
def dequeued (c : Counters) : Counters := { c with queueDepth := c.queueDepth - 1 }

/-- Counts what applying a request did. -/
def applied (c : Counters) (o : Outcome) : Counters :=
  { c with
    requestsApplied := c.requestsApplied + 1
    deletesApplied := c.deletesApplied + if o.isDelete then 1 else 0
    familiesWritten := c.familiesWritten + o.written
    familiesRejected := c.familiesRejected + o.rejected
    samplesRejected := c.samplesRejected + o.samplesRejected }

/-- Counts a checkpoint that was written at a time. -/
def checkpointWritten (c : Counters) (seconds : Nat) : Counters :=
  { c with checkpointsWritten := c.checkpointsWritten + 1, lastCheckpoint := seconds }

/-- Counts a checkpoint that failed. -/
def checkpointFailed (c : Counters) : Counters :=
  { c with checkpointFailures := c.checkpointFailures + 1 }

-- ── Exposition ──────────────────────────────────────────────────────────────

/-- One value as a scraper reads it: what it means, how it moves, and what it is. -/
def block (name help kind value : String) : String :=
  "# HELP " ++ name ++ " " ++ help ++ "\n# TYPE " ++ name ++ " " ++ kind ++ "\n" ++ name ++ " "
    ++ value ++ "\n"

/-- The counters as a scraper reads them. -/
def exposition (c : Counters) : String :=
  String.join
    [block "pushgate_write_requests_total" "Write and delete requests applied." "counter"
        (toString c.requestsApplied),
      block "pushgate_delete_requests_total" "Delete requests applied." "counter"
        (toString c.deletesApplied),
      block "pushgate_families_written_total" "Metric families stored." "counter"
        (toString c.familiesWritten),
      block "pushgate_families_rejected_total" "Metric families dropped by validation." "counter"
        (toString c.familiesRejected),
      block "pushgate_metrics_rejected_total"
        "Metrics dropped for inconsistent job/instance labels." "counter"
        (toString c.samplesRejected),
      block "pushgate_checkpoints_total" "Checkpoints written." "counter"
        (toString c.checkpointsWritten),
      block "pushgate_checkpoint_failures_total" "Checkpoints that failed." "counter"
        (toString c.checkpointFailures),
      block "pushgate_last_checkpoint_timestamp_seconds"
        "Unix time of the last successful checkpoint." "gauge" (toString c.lastCheckpoint),
      block "pushgate_write_queue_length" "Write requests waiting for the writer." "gauge"
        (toString c.queueDepth)]

end Counters

end MetricDepot
