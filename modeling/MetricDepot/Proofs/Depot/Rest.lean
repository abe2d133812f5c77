import MetricDepot.Proofs.Depot.Run
/-!
# Rest — the writer while the clock stands

    As long as no time passes and nothing is sent, the writer comes to rest.  Every turn
    brings it nearer, in a measure that pays for each message in advance: for taking it, for
    the end of its batch, and for a checkpoint that this may make due.  A checkpoint that
    fails is not due again before the clock goes on.

    A writer at rest is at its end, or it waits with an empty queue for the holders that are
    left, and no checkpoint is due.
-/

namespace MetricDepot

open Checkpoint

-- ── The measure ─────────────────────────────────────────────────────────────

/-- More steps than the writer still takes with so many messages in the queue, and so many
    for a checkpoint that is due. -/
def Phase.ahead (queued due : Nat) : Phase → Nat
  | .idle => 10 * queued + 8 + due
  | .batch .. => 10 * queued + 16
  | .saving pending => 10 * queued + 9 + pending.length + due
  | .draining => 10 * queued + 7
  | .finishing pending => pending.length + 1
  | .exited _ => 0
  | .killed => 0

namespace Depot

/-- The steps of a checkpoint that is due: its beginning, five effects, and its end. -/
def dueAhead (d : Depot) (clock : Clock) : Nat := if d.isDue clock then 7 else 0

/-- More steps than the writer takes before it rests. -/
def ahead (d : Depot) (clock : Clock) : Nat := d.phase.ahead d.queue.length (d.dueAhead clock)

variable {clock : Clock} {d d' : Depot} {disk disk' : Disk}

theorem ahead_of_phase {phase : Phase} (h : d.phase = phase) :
    d.ahead clock = phase.ahead d.queue.length (d.dueAhead clock) := by
  rw [ahead, h]

theorem dueAhead_le (d : Depot) (clock : Clock) : d.dueAhead clock ≤ 7 := by
  rw [dueAhead]
  split
  · exact Nat.le_refl 7
  · exact Nat.zero_le 7

theorem dueAhead_of_due (h : d.isDue clock = true) : d.dueAhead clock = 7 := if_pos h

theorem dueAhead_of_none (h : d.deadline = none) : d.dueAhead clock = 0 := by
  rw [dueAhead, isDue, h]
  rfl

/-- A checkpoint that is to be tried again is not due before the clock goes on. -/
theorem isDue_of_retry (h : d.deadline = some (clock.millis + retryDelay)) : d.isDue clock = false := by
  rw [isDue, h, Option.any_some, retryDelay]
  exact decide_eq_false (by omega)

theorem dueAhead_of_retry (h : d.deadline = some (clock.millis + retryDelay)) :
    d.dueAhead clock = 0 := by
  rw [dueAhead, isDue_of_retry h]
  rfl

theorem length_replacement_le (file : String) (bytes : Bytes) : (replacement file bytes).length ≤ 5 := by
  rw [replacement]
  split
  · exact Nat.le_of_ble_eq_true rfl
  · exact Nat.le_of_ble_eq_true rfl

/-- A writer that takes a message had more ahead of it than the message costs. -/
theorem ahead_of_takes {handled : Nat} {changed : Bool} (h : Takes clock d handled changed) :
    10 * d.queue.length + 8 ≤ d.ahead clock := by
  rcases h with ⟨hphase, -⟩ | ⟨hphase, -⟩
  · rw [ahead_of_phase hphase]
    exact Nat.le_add_right _ _
  · rw [ahead_of_phase hphase]
    exact Nat.add_le_add_left (by decide) _

/-- Every turn brings the writer nearer to its rest. -/
theorem Turn.ahead_lt (h : Turn clock disk d d' disk') : d'.ahead clock < d.ahead clock := by
  cases h with
  | skipSave hphase hdue =>
    rw [ahead_of_phase hphase, ahead_of_phase rfl, dueAhead_of_due hdue, dueAhead_of_none rfl]
    show Phase.ahead d.queue.length 0 d.phase < _
    rw [hphase]
    exact Nat.lt_add_of_pos_right (by decide)
  | beginSave target bytes hphase hdue =>
    rw [ahead_of_phase hphase, ahead_of_phase rfl, dueAhead_of_due hdue, dueAhead_of_none rfl]
    have hlength := length_replacement_le target.file bytes
    dsimp only [Phase.ahead]
    omega
  | refuseSave _ _ hphase hdue =>
    rw [ahead_of_phase hphase, ahead_of_phase rfl, dueAhead_of_due hdue, dueAhead_of_retry rfl]
    exact Nat.lt_add_of_pos_right (by decide)
  | takeWrite _ _ _ _ htakes hqueue | takeFlush _ _ _ _ htakes hqueue
  | takeShutdown _ _ _ htakes hqueue =>
    have hahead := ahead_of_takes htakes
    rw [hqueue, List.length_cons] at hahead
    refine Nat.lt_of_lt_of_le ?_ hahead
    rw [ahead_of_phase rfl]
    dsimp only [Phase.ahead]
    omega
  | close hphase =>
    rw [ahead_of_phase hphase, ahead_of_phase rfl]
    dsimp only [Phase.ahead]
    omega
  | endQuietly _ _ hphase | endArmed _ _ hphase =>
    -- the next checkpoint may be due at once
    rw [ahead_of_phase hphase, ahead_of_phase rfl]
    exact Nat.lt_of_le_of_lt (Nat.add_le_add_left (dueAhead_le _ clock) _) (Nat.lt_succ_self _)
  | die _ _ hphase =>
    rw [ahead_of_phase hphase, ahead_of_phase rfl]
    exact Nat.succ_pos _
  | saved hphase | saveEffect _ _ _ hphase =>
    rw [ahead_of_phase hphase, ahead_of_phase rfl]
    exact Nat.add_lt_add_right (Nat.lt_succ_self _) _
  | saveFault _ _ _ _ hphase =>
    rw [ahead_of_phase hphase, ahead_of_phase rfl, dueAhead_of_retry rfl]
    dsimp only [Phase.ahead]
    omega
  | drainWrite _ rest hphase hqueue | drainFlush _ rest hphase hqueue
  | drainShutdown rest hphase hqueue =>
    rw [ahead_of_phase hphase, ahead_of_phase rfl, hqueue, List.length_cons]
    show Phase.ahead rest.length _ d.phase < _
    rw [hphase]
    dsimp only [Phase.ahead]
    omega
  | beginFinish target bytes hphase =>
    rw [ahead_of_phase hphase, ahead_of_phase rfl]
    have hlength := length_replacement_le target.file bytes
    dsimp only [Phase.ahead]
    omega
  | finishEffect _ _ _ hphase =>
    rw [ahead_of_phase hphase, ahead_of_phase rfl]
    exact Nat.lt_succ_self _
  | exitInMemory hphase | refuseFinish _ _ hphase | finished hphase | finishFault _ _ _ _ hphase =>
    rw [ahead_of_phase hphase, ahead_of_phase rfl]
    exact Nat.succ_pos _

-- ── At rest ─────────────────────────────────────────────────────────────────

/-- A writer at rest is at its end, or waits for the holders that are left. -/
theorem idle_or_over_of_step_none (h : d.step clock disk = none) :
    (d.phase = .idle ∧ d.queue = [] ∧ d.handles ≠ 0 ∧ d.isDue clock = false) ∨ d.isOver = true := by
  cases hphase : d.phase with
  | idle =>
    left
    rw [step, hphase] at h
    dsimp only at h
    split at h
    · cases h
    next hdue =>
      split at h
      · cases h
      next hqueue =>
        split at h
        · cases h
        next hhandles => exact ⟨rfl, hqueue, hhandles, Bool.eq_false_iff.mpr hdue⟩
  | exited result | killed =>
    right
    rw [isOver, hphase]
  | batch handled changed =>
    rw [step, hphase] at h
    dsimp only at h
    split at h
    · split at h
      · cases h
      · cases h
    · cases h
  | draining =>
    rw [step, hphase] at h
    dsimp only at h
    split at h
    · cases h
    · cases h
  | saving pending | finishing pending =>
    rw [step, hphase] at h
    cases h

/-- The writer waits exactly at its end, or with an empty queue for the holders that are left. -/
theorem step_eq_none_iff :
    d.step clock disk = none ↔
      (d.phase = .idle ∧ d.queue = [] ∧ d.handles ≠ 0 ∧ d.isDue clock = false) ∨ d.isOver = true := by
  refine ⟨idle_or_over_of_step_none, ?_⟩
  rintro (⟨hphase, hqueue, hhandles, hdue⟩ | hover)
  · simp only [step, hphase, hdue, hqueue, if_neg hhandles, Bool.false_eq_true, if_false]
  · rw [isOver] at hover
    rw [step]
    split at hover
    next hphase => rw [hphase]
    next hphase => rw [hphase]
    next => cases hover

/-- The fuel of a run is no limit: as many steps as are ahead bring the writer to rest. -/
theorem step_run {fuel : Nat} (hfuel : d.ahead clock ≤ fuel) :
    (run clock fuel d disk).1.step clock (run clock fuel d disk).2 = none := by
  induction fuel generalizing d disk with
  | zero =>
    show d.step clock disk = none
    cases hstep : d.step clock disk with
    | none => rfl
    | some next =>
      obtain ⟨d', disk'⟩ := next
      have hlt := (turn_of_step hstep).ahead_lt
      omega
  | succ fuel ih =>
    cases hstep : d.step clock disk with
    | none =>
      simp only [run, hstep]
    | some next =>
      obtain ⟨d', disk'⟩ := next
      have hlt := (turn_of_step hstep).ahead_lt
      simp only [run, hstep]
      exact ih (by omega)

theorem ahead_le_stepBound (d : Depot) (clock : Clock) : d.ahead clock ≤ d.stepBound := by
  have hdue := dueAhead_le d clock
  rw [ahead, stepBound, pendingEffects]
  cases d.phase with
  | saving pending | finishing pending =>
    dsimp only [Phase.ahead]
    omega
  | _ =>
    dsimp only [Phase.ahead]
    omega

/-- **A writer that settles comes to rest.** The bound on its steps never cuts it short. -/
theorem step_settle (clock : Clock) (d : Depot) (disk : Disk) :
    (d.settle clock disk).1.step clock (d.settle clock disk).2 = none :=
  step_run (ahead_le_stepBound d clock)

end Depot

-- ── In a run ────────────────────────────────────────────────────────────────

namespace Site

/-- So many steps of the writer, one behind another. -/
def works (n : Nat) : List Action := List.replicate n .work

theorem works_add (m n : Nat) : works (m + n) = works m ++ works n := (List.replicate_append_replicate).symm

/-- The writer works by itself. -/
theorem after_works (s : Site) (n : Nat) :
    s.after (works n) =
      { s with
        depot := (Depot.run s.clock n s.depot s.disk).1
        disk := (Depot.run s.clock n s.depot s.disk).2 } := by
  induction n generalizing s with
  | zero => rfl
  | succ n ih =>
    show (s.perform .work).after (works n) = _
    rw [ih]
    cases hstep : s.depot.step s.clock s.disk with
    | none =>
      have hsame : s.perform .work = s := by simp only [perform, hstep]
      -- a writer at rest stays at rest, whatever fuel is left
      have hrun : Depot.run s.clock n s.depot s.disk = (s.depot, s.disk) := by
        cases n with
        | zero => rfl
        | succ n => simp only [Depot.run, hstep]
      simp only [hsame, hrun, Depot.run, hstep]
    | some next =>
      simp only [perform, Depot.run, hstep]

/-- **The writer comes to rest.** With so many steps as are ahead of it, or more, it is at its
    end, or waits for the holders that are left. -/
theorem rests_after_works (s : Site) {n : Nat} (hn : s.depot.ahead s.clock ≤ n) :
    let d := (s.after (works n)).depot
    (d.phase = .idle ∧ d.queue = [] ∧ d.handles ≠ 0 ∧ d.isDue s.clock = false) ∨ d.isOver = true := by
  intro d
  have hd : d = (Depot.run s.clock n s.depot s.disk).1 := by
    show (s.after (works n)).depot = _
    rw [after_works]
  rw [hd]
  exact Depot.idle_or_over_of_step_none (Depot.step_run hn)

theorem accepted_works (s : Site) (n : Nat) : s.accepted (works n) = [] := by
  induction n generalizing s with
  | zero => rfl
  | succ n ih => exact ih (s.perform .work)

end Site

end MetricDepot
