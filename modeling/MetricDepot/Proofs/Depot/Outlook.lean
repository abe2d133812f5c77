import MetricDepot.Proofs.Depot.Tally
/-!
# Outlook — what a writer without an interval has to do

    With an interval of zero a checkpoint is due as soon as a batch has ended that changed the
    catalog, and what is due comes before the next message.  So a queue to which nothing is
    added says in advance what the writer will do: it takes the messages in batches of 1024,
    and behind each batch that changes the catalog it writes a checkpoint.

    `prescribed` is that prediction, read off the queue, and `outlook` extends it to all that
    the writer can be at.  A batch that is under way is predicted by what is left of its room
    (`inBatch`); the laws of the outlook follow the messages that are taken into it.
-/

namespace MetricDepot

open Checkpoint

/-- What the writer does, as far as it tells messages and checkpoints apart: it takes a message,
    begins a checkpoint, replaces the file, which then can be read so, or counts the
    checkpoint as written. -/
inductive Deed where
  | takes (m : Message)
  | begins
  | replaces (held : Except IoError Bytes)
  | counts
deriving DecidableEq

-- ── What is to be done ──────────────────────────────────────────────────────

namespace Depot

/-- The messages of a queue, as many at a time as a batch holds. -/
def batchesOf : List Message → List (List Message)
  | [] => []
  | m :: rest => (m :: rest).take batchLimit :: batchesOf ((m :: rest).drop batchLimit)
termination_by queue => queue.length
decreasing_by
  rw [List.length_drop, List.length_cons, batchLimit]
  omega

/-- A checkpoint of a catalog, and then more. -/
def checkpointed (c : Catalog) (more : Except Fault (List Deed)) : Except Fault (List Deed) := do
  let bytes ← encode c
  let deeds ← more
  return .begins :: .replaces (.ok bytes) :: .counts :: deeds

/-- What is to be done with some batches: all messages of a batch are taken, and if a request
    among them changes the catalog, a checkpoint of the catalog behind them is written. -/
def prescribed (c : Catalog) : List (List Message) → Except Fault (List Deed)
  | [] => .ok []
  | batch :: rest =>
      let requests := batch.filterMap Message.request?
      let now := c.applyAll requests
      let more := prescribed now rest
      (batch.map .takes ++ ·) <$>
        if (c.outcomes requests).any (·.changed) then checkpointed now more else more

/-- What is to be done with a queue by a writer in a batch with so much room left. -/
def inBatch (room : Nat) (changed : Bool) (c : Catalog) (queue : List Message) :
    Except Fault (List Deed) :=
  let requests := (queue.take room).filterMap Message.request?
  let now := c.applyAll requests
  let more := prescribed now (batchesOf (queue.drop room))
  ((queue.take room).map .takes ++ ·) <$>
    if changed || (c.outcomes requests).any (·.changed) then checkpointed now more else more

/-- What a writer has to do. -/
def outlook (d : Depot) : Except Fault (List Deed) :=
  match d.phase with
  | .idle =>
      let more := prescribed d.catalog (batchesOf d.queue)
      if d.deadline.isSome then checkpointed d.catalog more else more
  | .batch handled changed => inBatch (batchLimit - handled) changed d.catalog d.queue
  | .saving pending => do
      let bytes ← encode d.catalog
      let deeds ← prescribed d.catalog (batchesOf d.queue)
      return (if pending = [] then [] else [.replaces (.ok bytes)]) ++ .counts :: deeds
  | _ => .ok []

variable {c : Catalog} {changed : Bool} {room : Nat} {queue : List Message}

theorem checkpointed_eq {bytes : Bytes} (hbytes : encode c = .ok bytes) (more : Except Fault (List Deed)) :
    checkpointed c more = (.begins :: .replaces (.ok bytes) :: .counts :: ·) <$> more := by
  rw [checkpointed, hbytes]
  cases more <;> rfl

theorem outlook_of_saving {d : Depot} {pending : List Effect} {bytes : Bytes}
    (hphase : d.phase = .saving pending) (hbytes : encode d.catalog = .ok bytes) :
    d.outlook =
      ((if pending = [] then [] else [.replaces (.ok bytes)]) ++ .counts :: ·) <$>
        prescribed d.catalog (batchesOf d.queue) := by
  rw [outlook, hphase]
  simp only [hbytes]
  cases prescribed d.catalog (batchesOf d.queue) <;> rfl

theorem batchesOf_nil : batchesOf [] = [] := by
  rw [batchesOf]

/-- A full batch comes before what is behind it. -/
theorem batchesOf_append {batch : List Message} (h : batch.length = batchLimit) (rest : List Message) :
    batchesOf (batch ++ rest) = batch :: batchesOf rest := by
  cases batch with
  | nil => cases h
  | cons m batch =>
    rw [List.cons_append, batchesOf, ← List.cons_append, List.take_left' h, List.drop_left' h]

theorem map_nil_append (deeds : Except Fault (List Deed)) : ([] ++ ·) <$> deeds = deeds := id_map deeds

/-- Queues are predicted as a batch that has not begun. -/
theorem prescribed_batchesOf (c : Catalog) (queue : List Message) :
    prescribed c (batchesOf queue) = inBatch batchLimit false c queue := by
  cases queue with
  | nil =>
    rw [inBatch, List.take_nil, List.drop_nil, batchesOf_nil]
    rfl
  | cons m rest =>
    rw [batchesOf, prescribed, inBatch]
    simp only [Bool.false_or]

/-- A full batch, and one behind which nothing is queued, is over. -/
theorem inBatch_over (h : queue = [] ∨ room = 0) :
    inBatch room changed c queue =
      if changed then checkpointed c (prescribed c (batchesOf queue))
      else prescribed c (batchesOf queue) := by
  have htake : queue.take room = [] := by
    rcases h with rfl | rfl
    · exact List.take_nil
    · exact List.take_zero
  have hdrop : queue.drop room = queue := by
    rcases h with rfl | rfl
    · exact List.drop_nil
    · exact List.drop_zero
  rw [inBatch, htake, hdrop]
  simp only [List.filterMap_nil, List.map_nil, map_nil_append, Catalog.applyAll, List.foldl_nil,
    Catalog.outcomes, List.any_nil, Bool.or_false]

/-- In a batch with room the next message is taken. -/
theorem inBatch_write (r : Request) (rest : List Message) :
    inBatch (room + 1) changed c (.write r :: rest) =
      (.takes (.write r) :: ·) <$>
        inBatch room (changed || (c.apply r).2.changed) (c.apply r).1 rest := by
  rw [inBatch, inBatch, Functor.map_map]
  simp only [List.take_succ_cons, List.drop_succ_cons, List.map_cons, List.cons_append,
    List.filterMap_cons, Message.request?, Catalog.outcomes, List.any_cons, Bool.or_assoc]
  rfl

theorem inBatch_flush (ticket : Nat) (rest : List Message) :
    inBatch (room + 1) changed c (.flush ticket :: rest) =
      (.takes (.flush ticket) :: ·) <$> inBatch room changed c rest := by
  rw [inBatch, inBatch, Functor.map_map]
  simp only [List.take_succ_cons, List.drop_succ_cons, List.map_cons, List.cons_append,
    List.filterMap_cons, Message.request?]

/-- A writer that takes a message is in a batch with room, or as good as in one. -/
theorem outlook_of_takes {clock : Clock} {d : Depot} {handled : Nat} (htakes : Takes clock d handled changed)
    (hdeadline : d.phase = .idle → d.deadline = none) :
    d.outlook = inBatch (batchLimit - (handled + 1) + 1) changed d.catalog d.queue := by
  rcases htakes with ⟨hphase, -, rfl, rfl⟩ | ⟨hphase, hroom⟩
  · rw [outlook, hphase]
    simp only [hdeadline hphase, Option.isSome_none, Bool.false_eq_true, if_false]
    exact prescribed_batchesOf d.catalog d.queue
  · rw [outlook, hphase]
    have hleft : batchLimit - (handled + 1) + 1 = batchLimit - handled := by omega
    rw [hleft]

end Depot

end MetricDepot
