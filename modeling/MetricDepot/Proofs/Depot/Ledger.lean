import MetricDepot.Proofs.Depot.Closing
/-!
# Ledger — what happened, told without the counters

    A `Ledger` is kept by somebody who watches a run and never looks at a counter: the requests
    that were submitted, those that came too late, those that the writer applied, and for each
    attempt at a checkpoint whether it has replaced the file.

    What is entered when the writer goes on is told from its state before the step.  `Booking`
    lists what such a step comes to, with all that is counted or entered at it, and so what
    agrees with a ledger needs one case for each booking, and no account of batches or
    deadlines.  Of the effects of an attempt exactly the last replaces the file, and behind it
    there is nothing that could fail.
-/

namespace MetricDepot

open Checkpoint

-- ── What a step of the writer books ─────────────────────────────────────────

namespace Depot

variable {clock : Clock} {disk disk' : Disk} {d d' : Depot}

/-- Whether the next step of the writer takes what comes first in the queue. -/
def isTaking (clock : Clock) (d : Depot) : Bool :=
  match d.phase with
  | .idle => !d.isDue clock
  | .batch handled _ => decide (handled < batchLimit)
  | .draining => true
  | _ => false

/-- The request that the next step of the writer applies. -/
def applies? (clock : Clock) (d : Depot) : Option Request :=
  if d.isTaking clock then d.queue.head?.bind Message.request? else none

/-- Whether the next step of the writer begins an attempt at a checkpoint. -/
def begins (clock : Clock) (d : Depot) : Bool :=
  d.target.isSome &&
    match d.phase with
    | .idle => d.isDue clock
    | .draining => d.queue.isEmpty
    | _ => false

/-- A step that applies no request. -/
structure Aside (clock : Clock) (d d' : Depot) : Prop where
  applies : d.applies? clock = none
  waiting : d'.waiting = d.waiting
  catalog : d'.catalog = d.catalog

/-- What a step of the writer does that somebody counts. -/
inductive Booking (clock : Clock) (disk : Disk) (d d' : Depot) : Disk → Prop where
  | apply (r : Request) (happlies : d.applies? clock = some r) (hwaiting : d.waiting = r :: d'.waiting)
      (hcatalog : d'.catalog = (d.catalog.apply r).1) (hbegins : d.begins clock = false)
      (hbefore : d.pending? = none) (hafter : d'.pending? = none)
      (hcounters : d'.counters = d.counters.dequeued.applied (d.catalog.apply r).2) :
      Booking clock disk d d' disk
  | nothing (haside : Aside clock d d') (hbegins : d.begins clock = false)
      (hbefore : d.pending? = none) (hafter : d'.pending? = none)
      (hcounters : d'.counters = d.counters) : Booking clock disk d d' disk
  | die (hphase : d'.phase = .killed) : Booking clock disk d d' disk
  | begin (target : Target) (bytes : Bytes) (haside : Aside clock d d')
      (hbegins : d.begins clock = true) (hbefore : d.pending? = none)
      (htarget : d.target = some target)
      (hafter : d'.pending? = some (replacement target.file bytes))
      (hcounters : d'.counters = d.counters) : Booking clock disk d d' disk
  | refuse (haside : Aside clock d d') (hbegins : d.begins clock = true) (hbefore : d.pending? = none)
      (hafter : d'.pending? = none) (hcounters : d'.counters = d.counters.checkpointFailed) :
      Booking clock disk d d' disk
  | effect (e : Effect) (rest : List Effect) (after : Disk) (haside : Aside clock d d')
      (hbegins : d.begins clock = false) (hbefore : d.pending? = some (e :: rest))
      (heffect : disk.perform e = (after, .ok ())) (hafter : d'.pending? = some rest)
      (hcounters : d'.counters = d.counters) : Booking clock disk d d' after
  | fault (e : Effect) (rest : List Effect) (after : Disk) (reason : IoError)
      (haside : Aside clock d d') (hbegins : d.begins clock = false)
      (hbefore : d.pending? = some (e :: rest)) (heffect : disk.perform e = (after, .error reason))
      (hafter : d'.pending? = none) (hcounters : d'.counters = d.counters.checkpointFailed) :
      Booking clock disk d d' after
  | finish (seconds : Nat) (haside : Aside clock d d') (hbegins : d.begins clock = false)
      (hbefore : d.pending? = some []) (hafter : d'.pending? = none)
      (hcounters : d'.counters = d.counters.checkpointWritten seconds) : Booking clock disk d d' disk

/-- A writer that may take a message of the open queue is taking. -/
theorem isTaking_of_takes {handled : Nat} {changed : Bool} (h : Takes clock d handled changed) :
    d.isTaking clock = true := by
  rcases h with ⟨hphase, hdue, -⟩ | ⟨hphase, hroom⟩
  · rw [isTaking, hphase]
    simp [hdue]
  · rw [isTaking, hphase]
    exact decide_eq_true hroom

/-- Such a writer begins no checkpoint. -/
theorem begins_of_takes {handled : Nat} {changed : Bool} (h : Takes clock d handled changed) :
    d.begins clock = false := by
  rcases h with ⟨hphase, hdue, -⟩ | ⟨hphase, -⟩
  · simp [begins, hphase, hdue]
  · simp [begins, hphase]

/-- What is taken is applied, if it is a request. -/
theorem applies?_of_queue {m : Message} {rest : List Message} (htakes : d.isTaking clock = true)
    (hqueue : d.queue = m :: rest) : d.applies? clock = m.request? := by
  rw [applies?, if_pos htakes, hqueue]
  rfl

/-- Nothing is applied from an empty queue. -/
theorem applies?_of_empty (hqueue : d.queue = []) : d.applies? clock = none := by
  simp [applies?, hqueue]

/-- Nothing is applied by a writer that is not taking. -/
theorem applies?_of_not_taking (h : d.isTaking clock = false) : d.applies? clock = none := by
  simp [applies?, h]

/-- Nothing is applied at the end of a batch. -/
theorem applies?_of_full {handled : Nat} {changed : Bool} (hphase : d.phase = .batch handled changed)
    (hfull : d.queue = [] ∨ batchLimit ≤ handled) : d.applies? clock = none := by
  rcases hfull with hqueue | hlimit
  · exact applies?_of_empty hqueue
  · refine applies?_of_not_taking ?_
    rw [isTaking, hphase]
    exact decide_eq_false (Nat.not_lt.mpr hlimit)

/-- A writer that empties the closed queue is taking. -/
theorem isTaking_of_drain (hphase : d.phase = .draining) : d.isTaking clock = true := by
  rw [isTaking, hphase]

/-- The requests that wait are that of the first message, if it is one, and those behind it. -/
theorem waiting_of_queue {m : Message} {rest : List Message} (hqueue : d.queue = m :: rest) :
    d.waiting = m.request?.toList ++ rest.filterMap Message.request? := by
  rw [waiting, hqueue, List.filterMap_cons]
  cases m.request? with
  | none => rfl
  | some r => rfl

/-- Every turn is a booking. -/
theorem Turn.booking (h : Turn clock disk d d' disk') : Booking clock disk d d' disk' := by
  cases h with
  | takeWrite handled changed r rest htakes hqueue =>
    exact .apply r (applies?_of_queue (isTaking_of_takes htakes) hqueue) (waiting_of_queue hqueue) rfl
      (begins_of_takes htakes) (pending?_of_takes htakes) rfl rfl
  | drainWrite r rest hphase hqueue =>
    exact .apply r (applies?_of_queue (isTaking_of_drain hphase) hqueue) (waiting_of_queue hqueue) rfl
      (by simp [begins, hphase, hqueue]) (pending?_of_phase hphase) (pending?_of_phase hphase) rfl
  | takeFlush _ _ _ _ htakes hqueue | takeShutdown _ _ _ htakes hqueue =>
    exact .nothing ⟨applies?_of_queue (isTaking_of_takes htakes) hqueue, (waiting_of_queue hqueue).symm, rfl⟩
      (begins_of_takes htakes) (pending?_of_takes htakes) rfl rfl
  | drainFlush _ _ hphase hqueue | drainShutdown _ hphase hqueue =>
    exact .nothing ⟨applies?_of_queue (isTaking_of_drain hphase) hqueue, (waiting_of_queue hqueue).symm, rfl⟩
      (by simp [begins, hphase, hqueue]) (pending?_of_phase hphase) (pending?_of_phase hphase) rfl
  | skipSave hphase hdue htarget =>
    exact .nothing ⟨applies?_of_not_taking (by simp [isTaking, hphase, hdue]), rfl, rfl⟩
      (by simp [begins, htarget]) (pending?_of_phase hphase) (pending?_of_phase hphase) rfl
  | close hphase hdue hqueue hhandles =>
    exact .nothing ⟨applies?_of_empty hqueue, rfl, rfl⟩ (by simp [begins, hphase, hdue])
      (pending?_of_phase hphase) rfl rfl
  | endQuietly _ _ hphase hfull | endArmed _ _ hphase hfull =>
    exact .nothing ⟨applies?_of_full hphase hfull, rfl, rfl⟩ (by simp [begins, hphase])
      (pending?_of_phase hphase) rfl rfl
  | exitInMemory hphase hqueue htarget =>
    exact .nothing ⟨applies?_of_empty hqueue, rfl, rfl⟩ (by simp [begins, htarget])
      (pending?_of_phase hphase) rfl rfl
  | die => exact .die rfl
  | beginSave target bytes hphase hdue htarget =>
    exact .begin target bytes ⟨applies?_of_not_taking (by simp [isTaking, hphase, hdue]), rfl, rfl⟩
      (by simp [begins, hphase, hdue, htarget]) (pending?_of_phase hphase) htarget rfl rfl
  | beginFinish target bytes hphase hqueue htarget =>
    exact .begin target bytes ⟨applies?_of_empty hqueue, rfl, rfl⟩
      (by simp [begins, hphase, hqueue, htarget]) (pending?_of_phase hphase) htarget rfl rfl
  | refuseSave target fault hphase hdue htarget =>
    exact .refuse ⟨applies?_of_not_taking (by simp [isTaking, hphase, hdue]), rfl, rfl⟩
      (by simp [begins, hphase, hdue, htarget]) (pending?_of_phase hphase) rfl rfl
  | refuseFinish target fault hphase hqueue htarget =>
    exact .refuse ⟨applies?_of_empty hqueue, rfl, rfl⟩
      (by simp [begins, hphase, hqueue, htarget]) (pending?_of_phase hphase) rfl rfl
  | saveEffect e rest after hphase heffect | finishEffect e rest after hphase heffect =>
    exact .effect e rest _ ⟨applies?_of_not_taking (by simp [isTaking, hphase]), rfl, rfl⟩
      (by simp [begins, hphase]) (pending?_of_phase hphase) heffect rfl rfl
  | saveFault e rest after reason hphase heffect | finishFault e rest after reason hphase heffect =>
    exact .fault e rest _ reason ⟨applies?_of_not_taking (by simp [isTaking, hphase]), rfl, rfl⟩
      (by simp [begins, hphase]) (pending?_of_phase hphase) heffect rfl rfl
  | saved hphase | finished hphase =>
    exact .finish clock.seconds ⟨applies?_of_not_taking (by simp [isTaking, hphase]), rfl, rfl⟩
      (by simp [begins, hphase]) (pending?_of_phase hphase) rfl rfl

/-- A writer that waits books nothing. -/
theorem booking_of_rest (h : d.step clock disk = none) : Booking clock disk d d disk := by
  have hpending : d.pending? = none := pending?_of_step_none h
  rcases idle_or_over_of_step_none h with ⟨hphase, hqueue, -, hdue⟩ | hover
  · exact .nothing ⟨applies?_of_empty hqueue, rfl, rfl⟩ (by simp [begins, hphase, hdue]) hpending hpending rfl
  · rw [isOver] at hover
    split at hover
    next hphase =>
      exact .nothing ⟨applies?_of_not_taking (by simp [isTaking, hphase]), rfl, rfl⟩ (by simp [begins, hphase])
        hpending hpending rfl
    next hphase => exact .die hphase
    next => cases hover

end Depot

namespace Site

open Depot

/-- At every site the next step of the writer is a booking. -/
theorem booking (s : Site) :
    Booking s.clock s.disk s.depot (s.perform .work).depot (s.perform .work).disk := by
  have hhappens := happens s .work
  generalize s.perform .work = s' at hhappens
  cases hhappens with
  | send _ _ ha => exact absurd rfl ha
  | turn depot disk _ hturn => exact hturn.booking
  | rest _ hrests => exact booking_of_rest hrests
  | pass _ ha | outside _ ha => cases ha

end Site

-- ── The last effect of an attempt ───────────────────────────────────────────

namespace Checkpoint

/-- The effects of a replacement before its last. -/
def preparation (file : String) (bytes : Bytes) : List Effect :=
  (if Route.parentOf file = "" then [] else [.makeDirectories (Route.parentOf file)]) ++
    [.create (stagingOf file), .append (stagingOf file) bytes, .sync (stagingOf file)]

variable {file : String} {bytes : Bytes} {e : Effect} {rest : List Effect}

/-- A replacement is its preparation and a move. -/
theorem replacement_eq (file : String) (bytes : Bytes) :
    replacement file bytes = preparation file bytes ++ [.rename (stagingOf file) file] := by
  rw [replacement, preparation, List.append_assoc]
  rfl

/-- The preparation moves nothing. -/
theorem ne_rename_of_mem (h : e ∈ preparation file bytes) : e ≠ .rename (stagingOf file) file := by
  rintro rfl
  rw [preparation] at h
  split at h <;> simp at h

/-- Of what is left of a replacement, exactly the last effect moves the file. -/
theorem eq_rename_iff (h : e :: rest <:+ replacement file bytes) :
    e = .rename (stagingOf file) file ↔ rest = [] := by
  rw [replacement_eq, List.suffix_concat_iff] at h
  rcases h with hnil | ⟨before, hsplit, hsuffix⟩
  · cases hnil
  cases before with
  | nil =>
    obtain ⟨he, hrest⟩ := List.cons.inj hsplit
    exact ⟨fun _ => hrest, fun _ => he⟩
  | cons first before =>
    obtain ⟨rfl, rfl⟩ := List.cons.inj hsplit
    constructor
    · intro he
      exact absurd he (ne_rename_of_mem (hsuffix.mem List.mem_cons_self))
    · intro hnil
      simp at hnil

end Checkpoint

namespace Depot

variable {disk after : Disk} {d : Depot} {e : Effect} {rest : List Effect}

/-- Whether the next step of the writer moves the staging file to the place of the file. -/
def replaces (disk : Disk) (d : Depot) : Bool :=
  match d.target, d.pending? with
  | some target, some (e :: _) =>
      decide (e = .rename (stagingOf target.file) target.file) && (disk.perform e).2.isOk
  | _, _ => false

/-- Without an effect to come nothing is moved. -/
theorem replaces_of_pending (h : d.pending? = none ∨ d.pending? = some []) :
    d.replaces disk = false := by
  rw [replaces]
  rcases h with h | h
  · rw [h]
    split
    next hnone => cases hnone
    next => rfl
  · rw [h]
    split
    next hnil => cases hnil
    next => rfl

/-- Of a checkpoint under way the effect that is done moves the file if it is the last. -/
theorem replaces_of_effect {target : Target} {bytes : Bytes} (htarget : d.target = some target)
    (hpending : d.pending? = some (e :: rest)) (hsuffix : e :: rest <:+ replacement target.file bytes)
    (heffect : disk.perform e = (after, .ok ())) : d.replaces disk = rest.isEmpty := by
  rw [replaces, htarget, hpending]
  show (decide (e = .rename (stagingOf target.file) target.file) && (disk.perform e).2.isOk) = _
  rw [heffect, Bool.eq_iff_iff, List.isEmpty_iff, ← eq_rename_iff hsuffix]
  simp [Except.isOk, Except.toBool]

/-- An effect that fails moves nothing. -/
theorem replaces_of_fault {reason : IoError} (hpending : d.pending? = some (e :: rest))
    (heffect : disk.perform e = (after, .error reason)) : d.replaces disk = false := by
  rw [replaces, hpending]
  cases d.target with
  | none => rfl
  | some target =>
    show (decide (e = .rename (stagingOf target.file) target.file) && (disk.perform e).2.isOk) = _
    rw [heffect]
    exact Bool.and_false _

end Depot

-- ── The ledger ──────────────────────────────────────────────────────────────

/-- What somebody writes down who watches a run: the requests that were submitted, discarded
    and applied, in order, and of each attempt at a checkpoint, the newest first, whether it
    has replaced the file. -/
structure Ledger where
  submitted : List Request
  discarded : List Request
  applied : List Request
  trials : List Bool
deriving DecidableEq

namespace Site

/-- The request that a holder submits. -/
def submits? (s : Site) : Action → Option Request
  | .submit r => if s.depot.handles = 0 then none else some r
  | _ => none

/-- The request that is submitted to a closed queue. -/
def discards? (s : Site) (a : Action) : Option Request :=
  if s.depot.isClosed then s.submits? a else none

end Site

namespace Ledger

/-- The ledger before a run. -/
def blank : Ledger := ⟨[], [], [], []⟩

/-- The ledger after an action at a site. -/
def enter (l : Ledger) (s : Site) : Action → Ledger
  | .work =>
      { l with
        applied := l.applied ++ (s.depot.applies? s.clock).toList
        trials :=
          if s.depot.begins s.clock then false :: l.trials
          else if s.depot.replaces s.disk then true :: l.trials.tail
          else l.trials }
  | a =>
      { l with
        submitted := l.submitted ++ (s.submits? a).toList
        discarded := l.discarded ++ (s.discards? a).toList }

/-- The ledger after a run. -/
def along (l : Ledger) : Site → List Action → Ledger
  | _, [] => l
  | s, a :: rest => (l.enter s a).along (s.perform a) rest

/-- The attempts that have ended. -/
def ended (l : Ledger) (d : Depot) : List Bool :=
  if d.pending?.isSome then l.trials.tail else l.trials

variable {l : Ledger} {d : Depot} {s : Site} {a : Action} {pending : List Effect}

/-- What holders and others do is entered under what was submitted or discarded. -/
theorem enter_of_ne (l : Ledger) (s : Site) (ha : a ≠ .work) :
    l.enter s a =
      { l with
        submitted := l.submitted ++ (s.submits? a).toList
        discarded := l.discarded ++ (s.discards? a).toList } := by
  cases a with
  | work => exact absurd rfl ha
  | _ => rfl

/-- An attempt is entered when it begins, as one that has not replaced the file. -/
theorem trials_of_begins (h : s.depot.begins s.clock = true) :
    (l.enter s .work).trials = false :: l.trials := by
  rw [enter, if_pos h]

/-- A move that is done is entered with the newest attempt. -/
theorem trials_of_not_begins (h : s.depot.begins s.clock = false) :
    (l.enter s .work).trials =
      if s.depot.replaces s.disk then true :: l.trials.tail else l.trials := by
  rw [enter, if_neg (Bool.eq_false_iff.mp h)]

/-- Between checkpoints all attempts have ended. -/
theorem ended_of_resting (h : d.pending? = none) : l.ended d = l.trials := by
  rw [ended, h]
  rfl

/-- While a checkpoint is under way all but the newest attempt have ended. -/
theorem ended_of_underway (h : d.pending? = some pending) : l.ended d = l.trials.tail := by
  rw [ended, h]
  rfl

end Ledger

namespace Site

variable {s : Site} {a : Action}

/-- What is submitted is accepted or discarded. -/
theorem toList_submits? (s : Site) (a : Action) :
    (s.submits? a).toList = (s.accepts? a).toList ++ (s.discards? a).toList := by
  cases a with
  | submit r =>
    by_cases hhandles : s.depot.handles = 0
    · simp [submits?, accepts?, discards?, hhandles]
    · cases hclosed : s.depot.isClosed with
      | true => simp [submits?, accepts?, discards?, hhandles, hclosed]
      | false => simp [submits?, accepts?, discards?, hhandles, hclosed]
  | _ => simp [submits?, accepts?, discards?]

/-- A closed queue accepts nothing. -/
theorem accepts?_of_closed (h : s.depot.isClosed = true) : s.accepts? a = none := by
  cases a with
  | submit r => rw [accepts?, if_pos (Or.inr h)]
  | _ => rfl

/-- An open queue discards nothing. -/
theorem discards?_of_open (h : s.depot.isClosed = false) : s.discards? a = none := by
  rw [discards?, if_neg (Bool.eq_false_iff.mp h)]

/-- What holders and others do puts the requests that are accepted into the queue, and no others. -/
theorem sent_of_ne (s : Site) (ha : a ≠ .work) :
    ∃ messages, Sent messages s.depot (s.perform a).depot ∧
      (s.accepts? a).toList = messages.filterMap Message.request? := by
  have hhappens := happens s a
  generalize s.perform a = s' at hhappens
  cases hhappens with
  | send messages depot _ hsent haccepts => exact ⟨messages, hsent, haccepts⟩
  | turn _ _ hwork | rest hwork => exact absurd hwork ha
  | pass millis hpass =>
    subst hpass
    exact ⟨[], .none _, rfl⟩
  | outside disk houtside =>
    subst houtside
    exact ⟨[], .none _, rfl⟩

end Site

end MetricDepot
