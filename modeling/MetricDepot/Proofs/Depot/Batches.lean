import MetricDepot.Proofs.Depot.Order
import MetricDepot.Proofs.Depot.Rest
/-!
# Batches — many messages at once

    Requests that are submitted one behind another, while nobody works, stand in the queue as
    they came (`after_submits`).  The writer then takes them into one batch, as many as a
    batch holds, without looking at the clock in between (`after_works_in_batch`).

    Only at the end of the batch does it ask when the next checkpoint is due.  If the clock
    cannot tell, it dies there, whatever is queued behind the batch: `killed_of_full_batch`.
-/

namespace MetricDepot

namespace Site

open Depot

-- ── Before the batch ────────────────────────────────────────────────────────

/-- Submitting some requests, one behind another. -/
def submits (requests : List Request) : List Action := requests.map .submit

theorem perform_submit {s : Site} (hhandles : s.depot.handles ≠ 0) (r : Request) :
    s.perform (.submit r) = { s with depot := s.depot.submit r } := if_neg hhandles

theorem handles_submit (d : Depot) (r : Request) : (d.submit r).handles = d.handles := by
  rw [submit, send]
  split
  · rfl
  · rfl

/-- Requests that are submitted in a row stand in the queue in a row. -/
theorem after_submits {s : Site} (hhandles : s.depot.handles ≠ 0) (requests : List Request) :
    s.after (submits requests) = { s with depot := s.depot.submitAll requests } := by
  rw [submitAll_eq_foldl]
  induction requests generalizing s with
  | nil => rfl
  | cons r requests ih =>
    show (s.perform (.submit r)).after (submits requests) = _
    rw [perform_submit hhandles]
    refine ih ?_
    show (s.depot.submit r).handles ≠ 0
    rw [handles_submit]
    exact hhandles

/-- An open queue accepts all of them. -/
theorem accepted_submits {s : Site} (hhandles : s.depot.handles ≠ 0) (hopen : s.depot.isClosed = false)
    (requests : List Request) : s.accepted (submits requests) = requests := by
  induction requests generalizing s with
  | nil => rfl
  | cons r requests ih =>
    have haccepts : s.accepts? (.submit r) = some r := by
      rw [accepts?, if_neg]
      rw [hopen]
      simp [hhandles]
    show (s.accepts? (.submit r)).toList ++ (s.perform (.submit r)).accepted (submits requests) = _
    rw [haccepts, perform_submit hhandles, ih]
    · rfl
    · show (s.depot.submit r).handles ≠ 0
      rw [handles_submit]
      exact hhandles
    · show (s.depot.submit r).isClosed = false
      rw [isClosed_submit]
      exact hopen

theorem submitAll_of_open {d : Depot} (hopen : d.isClosed = false) (requests : List Request) :
    d.submitAll requests =
      { d with
        queue := d.queue ++ requests.map .write
        counters := requests.foldl (fun c _ => c.enqueued) d.counters } :=
  if_neg (Bool.eq_false_iff.mp hopen)

/-- Who waits is not counted as applied. -/
theorem requestsApplied_enqueued (requests : List Request) (c : Counters) :
    (requests.foldl (fun c _ => c.enqueued) c).requestsApplied = c.requestsApplied := by
  induction requests generalizing c with
  | nil => rfl
  | cons r requests ih => exact ih c.enqueued

-- ── In the batch ────────────────────────────────────────────────────────────

/-- What taking messages into a batch leaves. -/
structure Batched (messages : List Message) (handled : Nat) (changed : Bool) (rest : List Message)
    (s s' : Site) : Prop where
  phase : ∃ changed', s'.depot.phase = .batch handled changed' ∧ (changed = true → changed' = true)
  queue : s'.depot.queue = rest
  target : s'.depot.target = s.depot.target
  deadline : s'.depot.deadline = s.depot.deadline
  applied : s'.depot.applied = s.depot.applied + (messages.filterMap Message.request?).length
  clock : s'.clock = s.clock

theorem Batched.trans {messages more : List Message} {handled handled' : Nat} {changed : Bool}
    {rest rest' : List Message} {s s' s'' : Site} (h : Batched messages handled changed rest s s')
    (hmore : ∀ changed', s'.depot.phase = .batch handled changed' →
      Batched more handled' changed' rest' s' s'') :
    Batched (messages ++ more) handled' changed rest' s s'' := by
  obtain ⟨changed', hphase, hkept⟩ := h.phase
  have hmore := hmore changed' hphase
  obtain ⟨changed'', hphase', hkept'⟩ := hmore.phase
  refine ⟨⟨changed'', hphase', hkept' ∘ hkept⟩, hmore.queue, hmore.target.trans h.target,
    hmore.deadline.trans h.deadline, ?_, hmore.clock.trans h.clock⟩
  rw [hmore.applied, h.applied, List.filterMap_append, List.length_append, Nat.add_assoc]

theorem perform_work_of_takes {s : Site} {handled : Nat} {changed : Bool} {m : Message}
    {rest : List Message} (htakes : Takes s.clock s.depot handled changed)
    (hqueue : s.depot.queue = m :: rest) :
    s.perform .work = { s with depot := { s.depot with queue := rest }.handle handled changed m } := by
  have hstep : s.depot.step s.clock s.disk
      = some ({ s.depot with queue := rest }.handle handled changed m, s.disk) := by
    rcases htakes with ⟨hphase, hdue, rfl, rfl⟩ | ⟨hphase, hroom⟩
    · simp only [step, hphase, hdue, hqueue, Bool.false_eq_true, if_false]
    · simp only [step, hphase, hqueue, if_pos hroom]
  simp only [perform, hstep]

/-- A batch takes all messages that there is room for. -/
theorem after_works_in_batch {s : Site} {handled : Nat} {changed : Bool} {messages rest : List Message}
    (hphase : s.depot.phase = .batch handled changed) (hqueue : s.depot.queue = messages ++ rest)
    (hword : .shutdown ∉ messages) (hroom : handled + messages.length ≤ batchLimit) :
    Batched messages (handled + messages.length) changed rest s
      (s.after (works messages.length)) := by
  induction messages generalizing s handled changed with
  | nil => exact ⟨⟨changed, hphase, id⟩, hqueue, rfl, rfl, rfl, rfl⟩
  | cons m messages ih =>
    rw [List.length_cons, Nat.add_comm messages.length 1, ← Nat.add_assoc] at hroom ⊢
    have htakes : Takes s.clock s.depot handled changed := Or.inr ⟨hphase, by omega⟩
    have htaken : Batched [m] (handled + 1) changed (messages ++ rest) s (s.perform .work) := by
      rw [perform_work_of_takes htakes hqueue]
      cases m with
      | write r =>
        refine ⟨⟨_, rfl, ?_⟩, rfl, rfl, rfl, rfl, rfl⟩
        intro hchanged
        rw [hchanged, Bool.true_or]
      | flush ticket => exact ⟨⟨changed, rfl, id⟩, rfl, rfl, rfl, rfl, rfl⟩
      | shutdown => exact absurd List.mem_cons_self hword
    refine htaken.trans fun changed' hphase' => ?_
    rw [Nat.add_comm 1 messages.length]
    exact ih hphase' htaken.queue (fun h => hword (List.mem_cons_of_mem m h)) hroom

-- ── The end of the batch ────────────────────────────────────────────────────

/-- **A full batch may be the last.** A writer that waits with no checkpoint set, and takes a
    request that changes the catalog and then as many messages as fill the batch, dies at its
    end if the interval leads out of the clock.  What is queued behind the batch is lost. -/
theorem killed_of_full_batch {s : Site} {target : Target} (r : Request) (messages rest : List Message)
    (hidle : s.depot.phase = .idle) (hdeadline : s.depot.deadline = none)
    (htarget : s.depot.target = some target)
    (hlimit : Clock.limit ≤ s.clock.millis + target.interval)
    (hqueue : s.depot.queue = .write r :: messages ++ rest)
    (hchanged : (s.depot.catalog.apply r).2.changed = true) (hword : .shutdown ∉ messages)
    (hfull : 1 + messages.length = batchLimit) :
    let before := s.after (works (1 + messages.length))
    before.depot.queue = rest ∧
      before.depot.applied = s.depot.applied + (1 + (messages.filterMap Message.request?).length) ∧
      before.after (works 1)
        = { before with depot := { before.depot with phase := .killed, queue := [] } } := by
  intro before
  have hdue : s.depot.isDue s.clock = false := by
    rw [isDue, hdeadline]
    rfl
  have hfirst : Batched [.write r] 1 true (messages ++ rest) s (s.perform .work) := by
    rw [perform_work_of_takes (Or.inl ⟨hidle, hdue, rfl, rfl⟩) hqueue]
    exact ⟨⟨_, rfl, fun _ => hchanged⟩, rfl, rfl, rfl, rfl, rfl⟩
  have hbatch : Batched ([.write r] ++ messages) batchLimit true rest s before := by
    refine hfirst.trans fun changed hphase => ?_
    have hthen := after_works_in_batch hphase hfirst.queue hword (Nat.le_of_eq hfull)
    have hbefore : (s.perform .work).after (works messages.length) = before := by
      show s.after (works (messages.length + 1)) = s.after (works (1 + messages.length))
      rw [Nat.add_comm]
    rw [hfull, hbefore] at hthen
    exact hthen
  clear_value before
  obtain ⟨changed, hphase, htrue⟩ := hbatch.phase
  rw [htrue rfl] at hphase
  have happlied := hbatch.applied
  rw [List.filterMap_append, List.length_append] at happlied
  refine ⟨hbatch.queue, happlied, ?_⟩
  have hend : before.depot.endBatch before.clock true
      = { before.depot with phase := .killed, queue := [] } := by
    have hout : ¬ before.clock.millis + target.interval < Clock.limit := by
      rw [hbatch.clock]
      exact Nat.not_lt.mpr hlimit
    simp only [endBatch, hbatch.target, htarget, hbatch.deadline, hdeadline, if_neg hout]
  have hstep : before.depot.step before.clock before.disk
      = some ({ before.depot with phase := .killed, queue := [] }, before.disk) := by
    rw [← hend, step, hphase]
    cases hrest : before.depot.queue with
    | nil => rfl
    | cons m rest => simp only [Nat.lt_irrefl, if_false]
  show before.perform .work = _
  simp only [perform, hstep]

end Site

end MetricDepot
