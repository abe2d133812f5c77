import MetricDepot.Depot.Writer
/-!
# Turns — what one step of the writer can be

    The step of the writer is a function of the phase, the queue, the clock and the disk.  A
    `Turn` lists its outcomes one by one, each with the state in which it happens and the
    state that it leaves.  `turn_of_step` says that the list is complete, so whatever holds
    of every turn holds of every step.
-/

namespace MetricDepot.Depot

-- ── Turns ───────────────────────────────────────────────────────────────────

/-- Whether the writer is about to take a message, which makes so many handled before it in
    its batch, and of these one that changed the catalog. -/
def Takes (clock : Clock) (d : Depot) (handled : Nat) (changed : Bool) : Prop :=
  (d.phase = .idle ∧ d.isDue clock = false ∧ handled = 0 ∧ changed = false) ∨
    (d.phase = .batch handled changed ∧ handled < batchLimit)

/-- The outcomes of a step of the writer. -/
inductive Turn (clock : Clock) (disk : Disk) (d : Depot) : Depot → Disk → Prop where
  | skipSave (hphase : d.phase = .idle) (hdue : d.isDue clock = true) (htarget : d.target = none) :
      Turn clock disk d { d with deadline := none } disk
  | beginSave (target : Target) (bytes : Bytes) (hphase : d.phase = .idle)
      (hdue : d.isDue clock = true) (htarget : d.target = some target)
      (hbytes : Checkpoint.encode d.catalog = .ok bytes) :
      Turn clock disk d
        { d with
          deadline := none
          phase := .saving (Checkpoint.replacement target.file bytes) } disk
  | refuseSave (target : Target) (fault : Checkpoint.Fault) (hphase : d.phase = .idle)
      (hdue : d.isDue clock = true) (htarget : d.target = some target)
      (hfault : Checkpoint.encode d.catalog = .error fault) :
      Turn clock disk d
        { d with
          deadline := some (clock.millis + retryDelay)
          phase := .idle
          counters := d.counters.checkpointFailed } disk
  | takeWrite (handled : Nat) (changed : Bool) (r : Request) (rest : List Message)
      (htakes : Takes clock d handled changed) (hqueue : d.queue = .write r :: rest) :
      Turn clock disk d
        { d with
          queue := rest
          catalog := (d.catalog.apply r).1
          counters := d.counters.dequeued.applied (d.catalog.apply r).2
          phase := .batch (handled + 1) (changed || (d.catalog.apply r).2.changed) } disk
  | takeFlush (handled : Nat) (changed : Bool) (ticket : Nat) (rest : List Message)
      (htakes : Takes clock d handled changed) (hqueue : d.queue = .flush ticket :: rest) :
      Turn clock disk d
        { d with queue := rest, answered := ticket + 1, phase := .batch (handled + 1) changed } disk
  | takeShutdown (handled : Nat) (changed : Bool) (rest : List Message)
      (htakes : Takes clock d handled changed) (hqueue : d.queue = .shutdown :: rest) :
      Turn clock disk d { d with queue := rest, phase := .draining } disk
  | close (hphase : d.phase = .idle) (hdue : d.isDue clock = false) (hqueue : d.queue = [])
      (hhandles : d.handles = 0) :
      Turn clock disk d { d with phase := .draining } disk
  | endQuietly (handled : Nat) (changed : Bool) (hphase : d.phase = .batch handled changed)
      (hfull : d.queue = [] ∨ batchLimit ≤ handled)
      (hquiet : changed = false ∨ d.target = none ∨ d.deadline ≠ none) :
      Turn clock disk d { d with phase := .idle } disk
  | endArmed (handled : Nat) (target : Target) (hphase : d.phase = .batch handled true)
      (hfull : d.queue = [] ∨ batchLimit ≤ handled) (htarget : d.target = some target)
      (hdeadline : d.deadline = none) (hclock : clock.millis + target.interval < Clock.limit) :
      Turn clock disk d
        { d with phase := .idle, deadline := some (clock.millis + target.interval) } disk
  | die (handled : Nat) (target : Target) (hphase : d.phase = .batch handled true)
      (hfull : d.queue = [] ∨ batchLimit ≤ handled) (htarget : d.target = some target)
      (hdeadline : d.deadline = none) (hclock : Clock.limit ≤ clock.millis + target.interval) :
      Turn clock disk d { d with phase := .killed, queue := [] } disk
  | saved (hphase : d.phase = .saving []) :
      Turn clock disk d
        { d with phase := .idle, counters := d.counters.checkpointWritten clock.seconds } disk
  | saveEffect (e : Effect) (rest : List Effect) (after : Disk)
      (hphase : d.phase = .saving (e :: rest)) (heffect : disk.perform e = (after, .ok ())) :
      Turn clock disk d { d with phase := .saving rest } after
  | saveFault (e : Effect) (rest : List Effect) (after : Disk) (reason : IoError)
      (hphase : d.phase = .saving (e :: rest)) (heffect : disk.perform e = (after, .error reason)) :
      Turn clock disk d
        { d with
          deadline := some (clock.millis + retryDelay)
          phase := .idle
          counters := d.counters.checkpointFailed } after
  | drainWrite (r : Request) (rest : List Message) (hphase : d.phase = .draining)
      (hqueue : d.queue = .write r :: rest) :
      Turn clock disk d
        { d with
          queue := rest
          catalog := (d.catalog.apply r).1
          counters := d.counters.dequeued.applied (d.catalog.apply r).2 } disk
  | drainFlush (ticket : Nat) (rest : List Message) (hphase : d.phase = .draining)
      (hqueue : d.queue = .flush ticket :: rest) :
      Turn clock disk d { d with queue := rest, answered := ticket + 1 } disk
  | drainShutdown (rest : List Message) (hphase : d.phase = .draining)
      (hqueue : d.queue = .shutdown :: rest) :
      Turn clock disk d { d with queue := rest } disk
  | exitInMemory (hphase : d.phase = .draining) (hqueue : d.queue = []) (htarget : d.target = none) :
      Turn clock disk d { d with phase := .exited (.ok ()) } disk
  | beginFinish (target : Target) (bytes : Bytes) (hphase : d.phase = .draining)
      (hqueue : d.queue = []) (htarget : d.target = some target)
      (hbytes : Checkpoint.encode d.catalog = .ok bytes) :
      Turn clock disk d
        { d with phase := .finishing (Checkpoint.replacement target.file bytes) } disk
  | refuseFinish (target : Target) (fault : Checkpoint.Fault) (hphase : d.phase = .draining)
      (hqueue : d.queue = []) (htarget : d.target = some target)
      (hfault : Checkpoint.encode d.catalog = .error fault) :
      Turn clock disk d
        { d with phase := .exited (.error fault), counters := d.counters.checkpointFailed } disk
  | finished (hphase : d.phase = .finishing []) :
      Turn clock disk d
        { d with
          phase := .exited (.ok ())
          counters := d.counters.checkpointWritten clock.seconds } disk
  | finishEffect (e : Effect) (rest : List Effect) (after : Disk)
      (hphase : d.phase = .finishing (e :: rest)) (heffect : disk.perform e = (after, .ok ())) :
      Turn clock disk d { d with phase := .finishing rest } after
  | finishFault (e : Effect) (rest : List Effect) (after : Disk) (reason : IoError)
      (hphase : d.phase = .finishing (e :: rest))
      (heffect : disk.perform e = (after, .error reason)) :
      Turn clock disk d
        { d with
          phase := .exited (.error (.io reason))
          counters := d.counters.checkpointFailed } after

variable {clock : Clock} {d d' : Depot} {disk disk' : Disk}

-- ── Every step is a turn ────────────────────────────────────────────────────

/-- To take a message and handle it in a batch is a turn. -/
theorem turn_of_take {handled : Nat} {changed : Bool} {m : Message} {rest : List Message}
    (htakes : Takes clock d handled changed) (hqueue : d.queue = m :: rest) :
    Turn clock disk d ({ d with queue := rest }.handle handled changed m) disk := by
  cases m with
  | write r => exact .takeWrite handled changed r rest htakes hqueue
  | flush ticket => exact .takeFlush handled changed ticket rest htakes hqueue
  | shutdown => exact .takeShutdown handled changed rest htakes hqueue

/-- So it is in the closed queue. -/
theorem turn_of_drain {m : Message} {rest : List Message} (hphase : d.phase = .draining)
    (hqueue : d.queue = m :: rest) :
    Turn clock disk d ({ d with queue := rest }.drain m) disk := by
  cases m with
  | write r => exact .drainWrite r rest hphase hqueue
  | flush ticket => exact .drainFlush ticket rest hphase hqueue
  | shutdown => exact .drainShutdown rest hphase hqueue

/-- To begin with a checkpoint that is due is a turn, also where there is no file for it or no
    bytes. -/
theorem turn_of_beginSave (hphase : d.phase = .idle) (hdue : d.isDue clock = true) :
    Turn clock disk d (d.beginSave clock) disk := by
  obtain ⟨catalog, counters, queue, phase, target, deadline⟩ := d
  cases target with
  | none => exact .skipSave hphase hdue rfl
  | some target =>
    cases hbytes : Checkpoint.encode catalog with
    | ok bytes =>
      simp only [beginSave, hbytes]
      exact .beginSave target bytes hphase hdue rfl hbytes
    | error fault =>
      simp only [beginSave, hbytes]
      exact .refuseSave target fault hphase hdue rfl hbytes

/-- To end a batch is a turn: quietly, with a deadline set, or with the death of the writer. -/
theorem turn_of_endBatch {handled : Nat} {changed : Bool} (hphase : d.phase = .batch handled changed)
    (hfull : d.queue = [] ∨ batchLimit ≤ handled) :
    Turn clock disk d (d.endBatch clock changed) disk := by
  obtain ⟨catalog, counters, queue, phase, target, deadline⟩ := d
  cases changed with
  | false => exact .endQuietly handled false hphase hfull (Or.inl rfl)
  | true =>
    cases target with
    | none => exact .endQuietly handled true hphase hfull (Or.inr (Or.inl rfl))
    | some target =>
      cases deadline with
      | some deadline =>
        exact .endQuietly handled true hphase hfull (Or.inr (Or.inr (Option.some_ne_none deadline)))
      | none =>
        by_cases hclock : clock.millis + target.interval < Clock.limit
        · simp only [endBatch, if_pos hclock]
          exact .endArmed handled target hphase hfull rfl rfl hclock
        · simp only [endBatch, if_neg hclock]
          exact .die handled target hphase hfull rfl rfl (Nat.le_of_not_lt hclock)

/-- Each effect of a checkpoint is a turn, and so is its end. -/
theorem turn_of_continueSave {pending : List Effect} (hphase : d.phase = .saving pending)
    (h : d.continueSave clock disk pending = (d', disk')) : Turn clock disk d d' disk' := by
  cases pending with
  | nil =>
    obtain ⟨rfl, rfl⟩ := Prod.mk.inj h
    exact .saved hphase
  | cons e rest =>
    cases heffect : disk.perform e with
    | mk after done =>
      cases done with
      | ok _ =>
        simp only [continueSave, heffect] at h
        obtain ⟨rfl, rfl⟩ := Prod.mk.inj h
        exact .saveEffect e rest after hphase heffect
      | error reason =>
        simp only [continueSave, heffect] at h
        obtain ⟨rfl, rfl⟩ := Prod.mk.inj h
        exact .saveFault e rest after reason hphase heffect

/-- So is each effect of the last checkpoint, and its end. -/
theorem turn_of_continueFinish {pending : List Effect} (hphase : d.phase = .finishing pending)
    (h : d.continueFinish clock disk pending = (d', disk')) : Turn clock disk d d' disk' := by
  cases pending with
  | nil =>
    obtain ⟨rfl, rfl⟩ := Prod.mk.inj h
    exact .finished hphase
  | cons e rest =>
    cases heffect : disk.perform e with
    | mk after done =>
      cases done with
      | ok _ =>
        simp only [continueFinish, heffect] at h
        obtain ⟨rfl, rfl⟩ := Prod.mk.inj h
        exact .finishEffect e rest after hphase heffect
      | error reason =>
        simp only [continueFinish, heffect] at h
        obtain ⟨rfl, rfl⟩ := Prod.mk.inj h
        exact .finishFault e rest after reason hphase heffect

/-- To stop taking messages when the closed queue is empty is a turn. -/
theorem turn_of_beginFinish (hphase : d.phase = .draining) (hqueue : d.queue = []) :
    Turn clock disk d d.beginFinish disk := by
  obtain ⟨catalog, counters, queue, phase, target, deadline⟩ := d
  cases target with
  | none => exact .exitInMemory hphase hqueue rfl
  | some target =>
    cases hbytes : Checkpoint.encode catalog with
    | ok bytes =>
      simp only [beginFinish, hbytes]
      exact .beginFinish target bytes hphase hqueue rfl hbytes
    | error fault =>
      simp only [beginFinish, hbytes]
      exact .refuseFinish target fault hphase hqueue rfl hbytes

/-- **The list of turns is complete.** Every step of the writer is one of them. -/
theorem turn_of_step (h : d.step clock disk = some (d', disk')) : Turn clock disk d d' disk' := by
  obtain ⟨catalog, counters, queue, phase, target, deadline, handles⟩ := d
  -- one case for each phase; the queue is looked into only where the step does
  cases phase with
  | idle =>
    simp only [step] at h
    split at h
    next hdue =>
      obtain ⟨rfl, rfl⟩ := Prod.mk.inj (Option.some.inj h)
      exact turn_of_beginSave rfl hdue
    next hdue =>
      have hdue := Bool.eq_false_iff.mpr hdue
      cases queue with
      | cons m rest =>
        obtain ⟨rfl, rfl⟩ := Prod.mk.inj (Option.some.inj h)
        exact turn_of_take (Or.inl ⟨rfl, hdue, rfl, rfl⟩) rfl
      | nil =>
        by_cases hhandles : handles = 0
        · simp only [if_pos hhandles] at h
          obtain ⟨rfl, rfl⟩ := Prod.mk.inj (Option.some.inj h)
          exact .close rfl hdue rfl hhandles
        · simp only [if_neg hhandles] at h
          cases h
  | batch handled changed =>
    cases queue with
    | cons m rest =>
      by_cases hroom : handled < batchLimit
      · simp only [step, if_pos hroom] at h
        obtain ⟨rfl, rfl⟩ := Prod.mk.inj (Option.some.inj h)
        exact turn_of_take (Or.inr ⟨rfl, hroom⟩) rfl
      · simp only [step, if_neg hroom] at h
        obtain ⟨rfl, rfl⟩ := Prod.mk.inj (Option.some.inj h)
        exact turn_of_endBatch rfl (Or.inr (Nat.le_of_not_lt hroom))
    | nil =>
      obtain ⟨rfl, rfl⟩ := Prod.mk.inj (Option.some.inj h)
      exact turn_of_endBatch rfl (Or.inl rfl)
  | saving pending => exact turn_of_continueSave rfl (Option.some.inj h)
  | draining =>
    cases queue with
    | cons m rest =>
      obtain ⟨rfl, rfl⟩ := Prod.mk.inj (Option.some.inj h)
      exact turn_of_drain rfl rfl
    | nil =>
      obtain ⟨rfl, rfl⟩ := Prod.mk.inj (Option.some.inj h)
      exact turn_of_beginFinish rfl rfl
  | finishing pending => exact turn_of_continueFinish rfl (Option.some.inj h)
  | exited result => cases h
  | killed => cases h

end MetricDepot.Depot
