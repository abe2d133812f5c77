import Mathlib.Data.Bool.Count
import MetricDepot.Proofs.Catalog.Outcomes
import MetricDepot.Proofs.Depot.Ledger
/-!
# Tally — the counters add up

    Three parties change counters.  Who submits counts a request in, the writer counts it out
    when it takes the message, whether in a batch or in the drain, and the end of an attempt
    at a checkpoint is counted as a success or a failure.  That the counters are right is that
    they agree with a ledger, `Balanced`, and every action keeps the balance: what comes
    from outside by `send`, and what the writer does by `book`, booking for booking.

    An attempt under way is in the ledger and not yet counted.
-/

namespace MetricDepot

open Checkpoint

-- ── Sums of outcomes ────────────────────────────────────────────────────────

namespace Catalog

/-- The outcomes of requests that are applied one after another. -/
def outcomes (c : Catalog) : List Request → List Outcome
  | [] => []
  | r :: rest => (c.apply r).2 :: outcomes (c.apply r).1 rest

theorem outcomes_concat (c : Catalog) (requests : List Request) (r : Request) :
    c.outcomes (requests ++ [r]) = c.outcomes requests ++ [((c.applyAll requests).apply r).2] := by
  induction requests generalizing c with
  | nil => rfl
  | cons first rest ih =>
    show (c.apply first).2 :: (c.apply first).1.outcomes (rest ++ [r]) = _
    rw [ih]
    rfl

theorem length_outcomes (c : Catalog) (requests : List Request) :
    (c.outcomes requests).length = requests.length := by
  induction requests generalizing c with
  | nil => rfl
  | cons r rest ih => rw [outcomes, List.length_cons, List.length_cons, ih]

/-- The deletions among requests are told from their outcomes. -/
theorem countP_isDelete_outcomes (c : Catalog) (requests : List Request) :
    (c.outcomes requests).countP (·.isDelete) = requests.countP Request.isDelete := by
  induction requests generalizing c with
  | nil => rfl
  | cons r rest ih => rw [outcomes, List.countP_cons, List.countP_cons, ih, isDelete_apply]

/-- Every family that requests carry is written or rejected. -/
theorem sum_written_add_sum_rejected (c : Catalog) (requests : List Request) :
    ((c.outcomes requests).map (·.written)).sum + ((c.outcomes requests).map (·.rejected)).sum
      = (requests.map Request.carried).sum := by
  induction requests generalizing c with
  | nil => rfl
  | cons r rest ih =>
    have hfirst := written_add_rejected c r
    have hrest := ih (c.apply r).1
    simp only [outcomes, List.map_cons, List.sum_cons]
    omega

end Catalog

namespace Counters

variable {c : Counters} {outcomes : List Outcome} {trials : List Bool}

/-- What is counted of requests is the sum of outcomes. -/
structure Sums (c : Counters) (outcomes : List Outcome) : Prop where
  requests : c.requestsApplied = outcomes.length
  deletes : c.deletesApplied = outcomes.countP (·.isDelete)
  written : c.familiesWritten = (outcomes.map (·.written)).sum
  rejected : c.familiesRejected = (outcomes.map (·.rejected)).sum
  samples : c.samplesRejected = (outcomes.map (·.samplesRejected)).sum

theorem Sums.applied (h : c.Sums outcomes) (o : Outcome) :
    (c.dequeued.applied o).Sums (outcomes ++ [o]) where
  requests := by
    rw [List.length_append, ← h.requests]
    rfl
  deletes := by
    rw [List.countP_append, List.countP_singleton, ← h.deletes]
    rfl
  written := by
    rw [List.map_append, List.sum_append, ← h.written]
    rfl
  rejected := by
    rw [List.map_append, List.sum_append, ← h.rejected]
    rfl
  samples := by
    rw [List.map_append, List.sum_append, ← h.samples]
    rfl

/-- Neither the queue nor checkpoints are counted in these sums. -/
theorem Sums.beside (h : c.Sums outcomes) (written failures last : Nat) (depth : Int) :
    Sums { c with
      checkpointsWritten := written
      checkpointFailures := failures
      lastCheckpoint := last
      queueDepth := depth } outcomes :=
  ⟨h.requests, h.deletes, h.written, h.rejected, h.samples⟩

/-- What is counted of checkpoints are the attempts that have ended, a success being one that
    has replaced the file. -/
structure Counts (c : Counters) (trials : List Bool) : Prop where
  written : c.checkpointsWritten = trials.count true
  failures : c.checkpointFailures = trials.count false

theorem Counts.failed (h : c.Counts trials) : c.checkpointFailed.Counts (false :: trials) where
  written := by
    rw [List.count_cons_of_ne (by decide), ← h.written]
    rfl
  failures := by
    rw [List.count_cons_self, ← h.failures]
    rfl

theorem Counts.succeeded (h : c.Counts trials) (seconds : Nat) :
    (c.checkpointWritten seconds).Counts (true :: trials) where
  written := by
    rw [List.count_cons_self, ← h.written]
    rfl
  failures := by
    rw [List.count_cons_of_ne (by decide), ← h.failures]
    rfl

theorem Counts.ended (h : c.Counts trials) :
    c.checkpointsWritten + c.checkpointFailures = trials.length := by
  rw [h.written, h.failures]
  exact List.count_true_add_count_false trials

end Counters
-- ── What is counted outside the writer ──────────────────────────────────────

namespace Site

open Depot

variable {s : Site} {a : Action}

theorem counters_send (d : Depot) (m : Message) : (d.send m).counters = d.counters := by
  rw [Depot.send]
  split
  · rfl
  · rfl

theorem counters_beginFlush (d : Depot) : d.beginFlush.1.counters = d.counters := by
  rw [Depot.beginFlush]
  split
  · rfl
  · exact counters_send d _

theorem counters_begunShutdown (d : Depot) : (begunShutdown d).counters = d.counters := by
  rw [begunShutdown, Depot.beginShutdown]
  cases d.stopping with
  | true => rfl
  | false => exact counters_send d .shutdown

theorem counters_endedShutdown (d : Depot) : (endedShutdown d).counters = d.counters := by
  unfold endedShutdown
  split
  next _ _ hend =>
    obtain ⟨result, -, hresult⟩ := Option.map_eq_some_iff.mp hend
    obtain ⟨rfl, -⟩ := Prod.mk.inj hresult
    rfl
  · rfl

theorem counters_hold (s : Site) (change : Depot → Depot)
    (hchange : (change s.depot).counters = s.depot.counters) :
    (s.hold change).depot.counters = s.depot.counters := by
  rw [hold]
  split
  · rfl
  · exact hchange

/-- Nobody but the writer and those who submit counts anything. -/
theorem counters_of_ne (s : Site) (ha : a ≠ .work) (hsubmit : ∀ r, a ≠ .submit r) :
    (s.perform a).depot.counters = s.depot.counters := by
  cases a with
  | submit r => exact absurd rfl (hsubmit r)
  | flush => exact counters_hold s (·.beginFlush.1) (counters_beginFlush s.depot)
  | beginShutdown => exact counters_hold s begunShutdown (counters_begunShutdown s.depot)
  | endShutdown => exact counters_hold s endedShutdown (counters_endedShutdown s.depot)
  | clone => exact counters_hold s Depot.addHandle rfl
  | drop => exact counters_hold s Depot.dropHandle rfl
  | look | wait | outside => rfl
  | work => exact absurd rfl ha

/-- Who submits counts a request in, if the queue takes it. -/
theorem queueDepth_of_ne (s : Site) (ha : a ≠ .work) :
    (s.perform a).depot.counters.queueDepth
      = s.depot.counters.queueDepth + (s.accepts? a).toList.length := by
  cases a with
  | submit r =>
    show (s.hold (·.submit r)).depot.counters.queueDepth = _
    by_cases hhandles : s.depot.handles = 0
    · rw [hold, if_pos hhandles, accepts?, if_pos (Or.inl hhandles)]
      exact (Int.add_zero _).symm
    · rw [hold, if_neg hhandles]
      cases hclosed : s.depot.isClosed with
      | true =>
        rw [accepts?_of_closed hclosed]
        show (s.depot.submit r).counters.queueDepth = _
        rw [submit_of_closed hclosed]
        exact (Int.add_zero _).symm
      | false =>
        rw [accepts?, if_neg (by simp [hhandles, hclosed])]
        show (s.depot.submit r).counters.queueDepth = _
        rw [Depot.submit, if_neg (Bool.eq_false_iff.mp hclosed)]
        rfl
  | _ =>
    rw [counters_of_ne s ha (by simp)]
    exact (Int.add_zero _).symm

end Site

-- ── The balance ─────────────────────────────────────────────────────────────

/-- The counters and the catalog of a depot agree with a ledger: what was submitted has been
    applied, waits, or came when the queue was closed, and an attempt under way is the newest,
    has replaced the file when nothing is left of it, and is not counted yet. -/
structure Balanced (start : Catalog) (l : Ledger) (d : Depot) : Prop where
  submitted : l.submitted = l.applied ++ d.waiting ++ l.discarded
  intime : d.isClosed = false → l.discarded = []
  depth : d.counters.queueDepth = d.waiting.length
  catalog : d.catalog = start.applyAll l.applied
  sums : d.counters.Sums (start.outcomes l.applied)
  counts : d.counters.Counts (l.ended d)
  underway : ∀ pending, d.pending? = some pending → ∃ target bytes, d.target = some target ∧
    pending <:+ replacement target.file bytes ∧ l.trials = pending.isEmpty :: l.ended d

namespace Balanced

open Depot

variable {start : Catalog} {l : Ledger} {d d' : Depot} {s : Site} {a : Action} {disk' : Disk}

theorem blank (start : Catalog) (target : Option Target) :
    Balanced start .blank (.start start target) where
  submitted := rfl
  intime _ := rfl
  depth := rfl
  catalog := rfl
  sums := ⟨rfl, rfl, rfl, rfl, rfl⟩
  counts := ⟨rfl, rfl⟩
  underway _ h := nomatch h

/-- Whoever is not the writer keeps the balance. -/
theorem send (h : Balanced start l s.depot) (ha : a ≠ .work) :
    Balanced start (l.enter s a) (s.perform a).depot := by
  obtain ⟨messages, hsent, haccepts⟩ := s.sent_of_ne ha
  have hdepth := s.queueDepth_of_ne ha
  have hwaiting : (s.perform a).depot.waiting = s.depot.waiting ++ (s.accepts? a).toList := by
    rw [waiting, hsent.queue, List.filterMap_append, haccepts]
    rfl
  have hclosed : (s.perform a).depot.isClosed = s.depot.isClosed := isClosed_congr hsent.phase
  have hpending : (s.perform a).depot.pending? = s.depot.pending? := pending?_of_phase hsent.phase
  have hended : (l.enter s a).ended (s.perform a).depot = l.ended s.depot := by
    rw [Ledger.ended, Ledger.ended, hpending, l.enter_of_ne s ha]
  rw [Ledger.enter_of_ne l s ha] at hended ⊢
  refine ⟨?_, ?_, ?_, hsent.catalog.trans h.catalog, ?_, ?_, ?_⟩
  · -- what is accepted comes before all that is discarded
    show l.submitted ++ (s.submits? a).toList = l.applied ++ _ ++ (l.discarded ++ (s.discards? a).toList)
    rw [h.submitted, hwaiting, s.toList_submits?]
    cases hopen : s.depot.isClosed with
    | true =>
      rw [Site.accepts?_of_closed hopen]
      simp
    | false =>
      rw [h.intime hopen, Site.discards?_of_open hopen]
      simp
  · intro hopen
    rw [hclosed] at hopen
    show l.discarded ++ (s.discards? a).toList = []
    rw [h.intime hopen, Site.discards?_of_open hopen]
    rfl
  · rw [hdepth, h.depth, hwaiting, List.length_append]
    exact (Int.natCast_add _ _).symm
  · rw [hsent.counters]
    exact h.sums.beside _ _ _ _
  · rw [hended, hsent.counters]
    exact ⟨h.counts.written, h.counts.failures⟩
  · intro pending hnow
    obtain ⟨target, bytes, htarget, hsuffix, htrials⟩ := h.underway pending (hpending ▸ hnow)
    refine ⟨target, bytes, hsent.target.trans htarget, hsuffix, ?_⟩
    rw [hended]
    exact htrials

/-- As long as the queue is open nothing is discarded. -/
theorem discarded_eq_nil (h : Balanced start l d) (hclosed : d.isClosed = true → d'.isClosed = true)
    (hopen : d'.isClosed = false) : l.discarded = [] := by
  refine h.intime (Bool.eq_false_iff.mpr ?_)
  intro hbefore
  cases hopen.symm.trans (hclosed hbefore)

/-- A step that applies no request keeps the balance, if it counts what becomes of attempts. -/
theorem aside (h : Balanced start l s.depot) (haside : Aside s.clock s.depot d')
    (hclosed : s.depot.isClosed = true → d'.isClosed = true)
    (hdepth : d'.counters.queueDepth = s.depot.counters.queueDepth)
    (hsums : d'.counters.Sums (start.outcomes l.applied))
    (hcounts : d'.counters.Counts ((l.enter s .work).ended d'))
    (hunderway : ∀ pending, d'.pending? = some pending → ∃ target bytes, d'.target = some target ∧
      pending <:+ replacement target.file bytes ∧
        (l.enter s .work).trials = pending.isEmpty :: (l.enter s .work).ended d') :
    Balanced start (l.enter s .work) d' := by
  have happlied : (l.enter s .work).applied = l.applied := by
    show l.applied ++ (s.depot.applies? s.clock).toList = l.applied
    rw [haside.applies]
    exact List.append_nil _
  refine ⟨?_, h.discarded_eq_nil hclosed, ?_, ?_, ?_, hcounts, hunderway⟩
  · rw [happlied, haside.waiting]
    exact h.submitted
  · rw [hdepth, haside.waiting]
    exact h.depth
  · rw [happlied, haside.catalog]
    exact h.catalog
  · rw [happlied]
    exact hsums

/-- The writer keeps the balance as long as it lives. -/
theorem book (h : Balanced start l s.depot) (hbooking : Booking s.clock s.disk s.depot d' disk')
    (hlive : d'.phase ≠ .killed) (hclosed : s.depot.isClosed = true → d'.isClosed = true)
    (htarget : d'.target = s.depot.target) : Balanced start (l.enter s .work) d' := by
  have hnone {Q : List Effect → Prop} (hafter : d'.pending? = none) :
      ∀ pending, d'.pending? = some pending → Q pending := by
    intro pending hpending
    cases hafter.symm.trans hpending
  have hidle (hbegins : s.depot.begins s.clock = false)
      (hbefore : s.depot.pending? = none ∨ s.depot.pending? = some []) :
      (l.enter s .work).trials = l.trials := by
    rw [Ledger.trials_of_not_begins hbegins, replaces_of_pending hbefore]
    rfl
  cases hbooking with
  | apply r happlies hwaiting hcatalog hbegins hbefore hafter hcounters =>
    have happlied : (l.enter s .work).applied = l.applied ++ [r] := by
      show l.applied ++ (s.depot.applies? s.clock).toList = _
      rw [happlies]
      rfl
    refine ⟨?_, h.discarded_eq_nil hclosed, ?_, ?_, ?_, ?_, hnone hafter⟩
    · show l.submitted = _ ++ l.discarded
      rw [happlied, h.submitted, hwaiting]
      simp
    · rw [hcounters]
      show s.depot.counters.queueDepth - 1 = _
      rw [h.depth, hwaiting, List.length_cons]
      omega
    · rw [happlied, hcatalog, h.catalog, Catalog.applyAll_append]
      rfl
    · rw [happlied, hcounters, Catalog.outcomes_concat, ← h.catalog]
      exact h.sums.applied _
    · rw [Ledger.ended_of_resting hafter, hidle hbegins (Or.inl hbefore), hcounters,
        ← Ledger.ended_of_resting (l := l) hbefore]
      exact ⟨h.counts.written, h.counts.failures⟩
  | nothing haside hbegins hbefore hafter hcounters =>
    refine h.aside haside hclosed (by rw [hcounters]) (hcounters ▸ h.sums) ?_ (hnone hafter)
    rw [Ledger.ended_of_resting hafter, hidle hbegins (Or.inl hbefore), hcounters,
      ← Ledger.ended_of_resting (l := l) hbefore]
    exact h.counts
  | die hphase => exact absurd hphase hlive
  | begin target bytes haside hbegins hbefore haim hafter hcounters =>
    have hended : (l.enter s .work).ended d' = l.ended s.depot := by
      rw [Ledger.ended_of_underway hafter, Ledger.trials_of_begins hbegins,
        Ledger.ended_of_resting hbefore]
      rfl
    refine h.aside haside hclosed (by rw [hcounters]) (hcounters ▸ h.sums) ?_ ?_
    · rw [hended, hcounters]
      exact h.counts
    · intro pending hpending
      obtain rfl := Option.some.inj (hafter.symm.trans hpending)
      refine ⟨target, bytes, htarget.trans haim, List.suffix_rfl, ?_⟩
      rw [hended, Ledger.trials_of_begins hbegins, Ledger.ended_of_resting hbefore,
        List.isEmpty_eq_false_iff.mpr (replacement_ne_nil target.file bytes)]
  | refuse haside hbegins hbefore hafter hcounters =>
    refine h.aside haside hclosed (by rw [hcounters]; rfl) (hcounters ▸ h.sums.beside _ _ _ _) ?_
      (hnone hafter)
    rw [Ledger.ended_of_resting hafter, Ledger.trials_of_begins hbegins, hcounters,
      ← Ledger.ended_of_resting (l := l) hbefore]
    exact h.counts.failed
  | effect e rest after haside hbegins hbefore heffect hafter hcounters =>
    obtain ⟨target, bytes, haim, hsuffix, htrials⟩ := h.underway _ hbefore
    -- the last effect is the one that replaces the file
    have hnow : (l.enter s .work).trials = rest.isEmpty :: l.ended s.depot := by
      rw [Ledger.trials_of_not_begins hbegins, replaces_of_effect haim hbefore hsuffix heffect, htrials]
      cases rest with
      | nil => rfl
      | cons next rest => rfl
    have hended : (l.enter s .work).ended d' = l.ended s.depot := by
      rw [Ledger.ended_of_underway hafter, hnow]
      rfl
    refine h.aside haside hclosed (by rw [hcounters]) (hcounters ▸ h.sums) ?_ ?_
    · rw [hended, hcounters]
      exact h.counts
    · intro pending hpending
      obtain rfl := Option.some.inj (hafter.symm.trans hpending)
      refine ⟨target, bytes, htarget.trans haim, (List.suffix_cons e rest).trans hsuffix, ?_⟩
      rw [hended]
      exact hnow
  | fault e rest after reason haside hbegins hbefore heffect hafter hcounters =>
    obtain ⟨target, bytes, -, -, htrials⟩ := h.underway _ hbefore
    refine h.aside haside hclosed (by rw [hcounters]; rfl) (hcounters ▸ h.sums.beside _ _ _ _) ?_
      (hnone hafter)
    rw [Ledger.ended_of_resting hafter, Ledger.trials_of_not_begins hbegins,
      replaces_of_fault hbefore heffect, hcounters]
    show Counters.Counts _ l.trials
    rw [htrials]
    exact h.counts.failed
  | finish seconds haside hbegins hbefore hafter hcounters =>
    obtain ⟨target, bytes, -, -, htrials⟩ := h.underway _ hbefore
    refine h.aside haside hclosed (by rw [hcounters]; rfl) (hcounters ▸ h.sums.beside _ _ _ _) ?_
      (hnone hafter)
    rw [Ledger.ended_of_resting hafter, hidle hbegins (Or.inr hbefore), hcounters, htrials]
    exact h.counts.succeeded seconds

end Balanced

-- ── Along a run ─────────────────────────────────────────────────────────────

namespace Site

open Depot

variable {s : Site} {run : List Action}

/-- A writer that has died stays dead. -/
theorem live_of_after (h : (s.after run).depot.phase ≠ .killed) : s.depot.phase ≠ .killed := by
  intro hkilled
  refine h (kept_after (fun d => d.phase = .killed) ?_ ?_ hkilled run)
  · intro messages d d' htells hbefore
    exact htells.phase.trans hbefore
  · intro clock disk disk' d d' hturn hbefore
    cases hturn.delivery with
    | apply r hlive | keep hlive => exact absurd hbefore hlive
    | lose hafter => exact hafter

theorem balanced_perform {start : Catalog} {l : Ledger} {a : Action}
    (h : Balanced start l s.depot) (hlive : (s.perform a).depot.phase ≠ .killed) :
    Balanced start (l.enter s a) (s.perform a).depot := by
  by_cases ha : a = .work
  · subst ha
    exact h.book s.booking hlive (fun hclosed => closed_after hclosed [.work]) (target_after s [.work])
  · exact h.send ha

theorem balanced_after {start : Catalog} {l : Ledger} (h : Balanced start l s.depot)
    (run : List Action) (hlive : (s.after run).depot.phase ≠ .killed) :
    Balanced start (l.along s run) (s.after run).depot := by
  induction run generalizing s l with
  | nil => exact h
  | cons a run ih => exact ih (balanced_perform h (live_of_after hlive)) hlive

/-- **The counters add up.** At every moment of every run in which the writer has not died:
    the submitted requests are those that were applied, then those that wait, then those that
    were discarded since the queue was closed, so their number is the sum of the applied
    requests, the depth of the queue and the discarded ones.  The depth is the number of those
    that wait, and never negative.  The catalog is that of the applied requests, be it in a
    batch or in the drain, and what is counted of them are the sums of their outcomes; the
    deletions among them are counted as such, and every family that they carry is counted as
    written or as rejected.  Attempts at a checkpoint are
    counted when they end, as written exactly those that have replaced the file, and all others
    as failed.  One that is under way is the newest, and has replaced the file exactly when
    nothing is left of it. -/
theorem tally_of_run (start : Catalog) (target : Option Target) (clock : Clock) (disk : Disk)
    (run : List Action)
    (hlive : ((opened start target clock disk).after run).depot.phase ≠ .killed) :
    let s := opened start target clock disk
    let d := (s.after run).depot
    let l := Ledger.blank.along s run
    l.submitted = l.applied ++ d.waiting ++ l.discarded ∧
      (l.submitted.length : Int)
        = d.counters.requestsApplied + d.counters.queueDepth + l.discarded.length ∧
      d.counters.queueDepth = d.waiting.length ∧ 0 ≤ d.counters.queueDepth ∧
      d.catalog = start.applyAll l.applied ∧
      d.counters.Sums (start.outcomes l.applied) ∧
      d.counters.deletesApplied = l.applied.countP Request.isDelete ∧
      d.counters.familiesWritten + d.counters.familiesRejected
        = (l.applied.map Request.carried).sum ∧
      d.counters.checkpointsWritten + d.counters.checkpointFailures = (l.ended d).length ∧
      d.counters.Counts (l.ended d) ∧
      ∀ pending, d.pending? = some pending → l.trials = pending.isEmpty :: l.ended d := by
  intro s d l
  have h : Balanced start l d := balanced_after (Balanced.blank start target) run hlive
  refine ⟨h.submitted, ?_, h.depth, ?_, h.catalog, h.sums, ?_, ?_, h.counts.ended, h.counts, ?_⟩
  · have happlied : d.counters.requestsApplied = l.applied.length := by
      rw [h.sums.requests, Catalog.length_outcomes]
    rw [h.submitted, happlied, h.depth, List.length_append, List.length_append]
    omega
  · rw [h.depth]
    exact Int.natCast_nonneg _
  · rw [h.sums.deletes]
    exact Catalog.countP_isDelete_outcomes start l.applied
  · rw [h.sums.written, h.sums.rejected]
    exact Catalog.sum_written_add_sum_rejected start l.applied
  · intro pending hpending
    obtain ⟨-, -, -, -, htrials⟩ := h.underway pending hpending
    exact htrials

/-- A depot with a file on an empty disk of which the first effect fails. -/
def unlucky : Site := opened .empty (some ⟨"depot.ckpt", 20⟩) ⟨0, 0⟩ ⟨.empty, [some 0]⟩

/-- The first attempt fails and the second replaces the file.  Then a deletion is applied, a
    request waits behind the word to stop, and another comes when the queue is closed. -/
def failedThenDrained : List Action :=
  [.submit upPush, .work, .work, .wait 20, .work, .work, .wait 5000, .work, .work, .work, .work, .work,
    .work, .submit (.delete ⟨"job", ""⟩ .epoch), .beginShutdown, .submit upPush, .work, .work, .submit upPush]

theorem tally_of_failedThenDrained :
    (unlucky.after failedThenDrained).depot.phase ≠ .killed ∧
      Ledger.blank.along unlucky failedThenDrained
        = ⟨[upPush, .delete ⟨"job", ""⟩ .epoch, upPush, upPush], [upPush],
            [upPush, .delete ⟨"job", ""⟩ .epoch], [true, false]⟩ ∧
      (unlucky.after failedThenDrained).depot.pending? = none ∧
      (unlucky.after failedThenDrained).depot.counters.queueDepth = 1 ∧
      (unlucky.after failedThenDrained).depot.counters.deletesApplied = 1 ∧
      (unlucky.after failedThenDrained).depot.counters.familiesWritten
        + (unlucky.after failedThenDrained).depot.counters.familiesRejected = 1 ∧
      (unlucky.after failedThenDrained).depot.counters.checkpointsWritten = 1 ∧
      (unlucky.after failedThenDrained).depot.counters.checkpointFailures = 1 := by
  have hlive : (unlucky.after failedThenDrained).depot.phase ≠ .killed := by decide +kernel
  have hledger : Ledger.blank.along unlucky failedThenDrained
      = ⟨[upPush, .delete ⟨"job", ""⟩ .epoch, upPush, upPush], [upPush],
          [upPush, .delete ⟨"job", ""⟩ .epoch], [true, false]⟩ := by decide +kernel
  have hpending : (unlucky.after failedThenDrained).depot.pending? = none := by decide +kernel
  have htally := tally_of_run .empty (some ⟨"depot.ckpt", 20⟩) ⟨0, 0⟩ ⟨.empty, [some 0]⟩ failedThenDrained
  rw [← unlucky] at htally
  obtain ⟨hsubmitted, -, hdepth, -, -, -, hdeletes, hfamilies, -, hcounts, -⟩ := htally hlive
  rw [Ledger.ended_of_resting hpending] at hcounts
  rw [hledger] at hsubmitted hdeletes hfamilies hcounts
  refine ⟨hlive, hledger, hpending, ?_, hdeletes, hfamilies, hcounts.written, hcounts.failures⟩
  -- of the four that were submitted two are applied and one was discarded
  have hlength := congrArg List.length hsubmitted
  rw [List.length_append, List.length_append] at hlength
  have hwaiting : (unlucky.after failedThenDrained).depot.waiting.length = 1 := by
    simp only [List.length_cons, List.length_nil] at hlength
    omega
  rw [hdepth, hwaiting]
  rfl

end Site

end MetricDepot
